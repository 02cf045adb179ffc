import WalletToolbox.Laws.AbortAction
import WalletToolbox.Laws.CreateAction
import WalletToolbox.Laws.InternalizeAction
import WalletToolbox.Laws.ProcessAction
import WalletToolbox.Laws.Proofs
import WalletToolbox.Laws.Unfail
import WalletToolbox.System

/-! # What an operation can do

One inversion for the whole system: the store that an operation leaves has the core tables it
found, or the effect of its call on them.
Every invariant of runs is a case analysis of this effect. -/

namespace WalletToolbox

open WalletToolbox.Lib WalletToolbox.Storage WalletToolbox.Signer WalletToolbox.Monitor
open WalletToolbox.Lib.Prog hiding pure exec

variable {sdk : Sdk} {s : Store}

/-- What an operation can leave. -/
inductive Effect (sdk : Sdk) (s : Store) : Op → Store → Prop
  | same {op : Op} {s' : Store} (h : SameCore s s') : Effect sdk s op s'
  | create {entropy : Entropy} {auth : String} {args : StorageCreateActionArgs} {s' : Store}
      {r : StorageCreateActionResult} {userId id : Nat}
      (ran : (createAction sdk entropy auth args).run Stmt.exec s = (.ok r, s'))
      (reports : Reports s userId id entropy.reference r.inputs s') :
      Effect sdk s (.createAction entropy auth args) s'
  | send {auth : String} {args : StorageProcessActionArgs} {random : String} {s₁ s' : Store}
      {userId : Nat} (isNewTx : args.isNewTx = false) (core : SameCore s s₁)
      (batch : Scheduled s₁.toTables userId args.sendWith s'.toTables) :
      Effect sdk s (.processAction auth args random) s'
  | commit {auth : String} {args : StorageProcessActionArgs} {random : String} {s₁ s' : Store}
      {userId : Nat} {transaction : Transaction} {txid : String} {rawTx : Bytes}
      {status : ReqTxStatus} (isNewTx : args.isNewTx = true) (core : SameCore s s₁)
      (found : Processable s₁ userId args transaction txid rawTx status)
      (fresh : ∀ q ∈ s.provenTxReqs, q.txid ≠ txid)
      (batch : Scheduled (s₁.toTables.commitSigned userId transaction txid rawTx status) userId
        (scheduled args txid) s'.toTables) :
      Effect sdk s (.processAction auth args random) s'
  | abort {auth : String} {reference : Bytes} {stamp : String} {user : User} {tx : Transaction}
      {ids : List Nat} {req : Option (ProvenTxReq × Json)} {s' : Store}
      (found : Abortable sdk s auth reference stamp user tx ids req)
      (h : s'.toTables = abortEffect s.toTables user.userId tx.transactionId ids req) :
      Effect sdk s (.abortAction auth reference stamp) s'
  | internalize {tracker : ChainTracker} {auth : String} {args : StorageInternalizeActionArgs}
      {userId id : Nat} {c : Internalizing} {s₁ s' : Store} (core : SameCore s s₁)
      (prepared : Prepared sdk tracker s₁ userId args c) (h : Internalized sdk c s s' id) :
      Effect sdk s (.internalizeAction tracker auth args) s'
  | signer {services : Services} {txid : String} {results : List PostBeefResult} {s' : Store}
      (h : s'.toTables = signerEffect services s txid (signerMove services txid results)) :
      Effect sdk s (.applyBroadcast services txid results) s'
  | post {sources : SourceBeefs} {services : Services} {req : ProvenTxReq} {s' : Store}
      (h : s'.toTables = postingEffect services s.toTables req
        (posting sdk sources services s req)) :
      Effect sdk s (.attemptToPostReq sources services req) s'
  | prove {services : Services} {params : ProofParams} {req : ProvenTxReq} {s' : Store}
      (h : s'.toTables = proofEffect s.toTables req (proofMove services params s.now req)) :
      Effect sdk s (.getProof services params req) s'
  | unfail {services : Services} {req : ProvenTxReq} {s' : Store}
      (h : s'.toTables = unfailEffect sdk services s.toTables req) :
      Effect sdk s (.unfailReq services req) s'

/-- The inversion. -/
theorem Op.run_effect (op : Op) : Effect sdk s op (op.run sdk s) := by
  cases op with
  | tick now => exact .same ⟨rfl, rfl, rfl, rfl⟩
  | createAction entropy auth args =>
    have hwp : wp Stmt.exec (Storage.createAction sdk entropy auth args)
        (fun r s' => ∃ userId id, Reports s userId id entropy.reference r.inputs s') (SameCore s) s :=
      wp_createAction (fun userId id _ _ _ h => ⟨userId, id, h⟩) fun _ h => h
    unfold Prog.wp at hwp
    show Effect sdk s _ ((Storage.createAction sdk entropy auth args).run Stmt.exec s).2
    rcases hrun : (Storage.createAction sdk entropy auth args).run Stmt.exec s with ⟨_ | r, s'⟩
    · rw [hrun] at hwp
      exact .same hwp
    · rw [hrun] at hwp
      obtain ⟨userId, id, h⟩ := hwp
      exact .create hrun h
  | processAction auth args random =>
    exact wp_store.mp (wp_processAction (fun s' h => .same h)
      (fun hnew userId s₁ s' hcore h => .send hnew hcore (h ▸ scheduleAll_scheduled _ _ _ _))
      fun hnew userId s₁ hcore t txid rawTx status hfound hfresh s' h =>
        .commit hnew hcore hfound hfresh (h ▸ scheduleAll_scheduled _ _ _ _))
  | abortAction auth reference stamp =>
    exact wp_store.mp (wp_abortAction (fun user tx ids req hfound s' h => .abort hfound h)
      fun _ => .same (SameCore.refl s))
  | internalizeAction tracker auth args =>
    exact wp_store.mp (wp_internalizeAction (fun s' h => .same h)
      fun userId c id s₁ s' hcore hprep h => .internalize hcore hprep h)
  | applyBroadcast services txid results =>
    exact wp_store.mp (wp_applyBroadcast fun s' h => .signer h)
  | attemptToPostReq sources services req =>
    exact wp_store.mp (wp_attemptToPostReq fun s' h => .post h)
  | getProof services params req =>
    exact wp_store.mp (wp_getProof fun s' h => .prove h)
  | unfailReq services req => exact wp_store.mp (wp_unfailReq fun s' h => .unfail h)

/-! ## Rows keep what they are -/

/-- An output row is about the same output. -/
structure SameTarget (o o' : Output) : Prop where
  outputId : o'.outputId = o.outputId
  userId : o'.userId = o.userId
  transactionId : o'.transactionId = o.transactionId
  vout : o'.vout = o.vout

/-- A transaction row keeps its id and its user. -/
structure SameAction (t t' : Transaction) : Prop where
  transactionId : t'.transactionId = t.transactionId
  userId : t'.userId = t.userId

/-- No operation changes whose row it is: an old row is about the same thing, a new transaction has
a new id, and a new output belongs to the user of its transaction. -/
structure KeepsRows (d d' : Tables) : Prop where
  transactions : ∀ t' ∈ d'.transactions, (∃ t ∈ d.transactions, SameAction t t') ∨
    ∀ t ∈ d.transactions, t.transactionId ≠ t'.transactionId
  outputs : ∀ o' ∈ d'.outputs, (∃ o ∈ d.outputs, SameTarget o o') ∨
    ∃ t' ∈ d'.transactions, t'.transactionId = o'.transactionId ∧ t'.userId = o'.userId

section KeepsRows

variable {d d' : Tables} {s' : Store}

theorem SameAction.trans {t₁ t₂ t₃ : Transaction} (h : SameAction t₁ t₂) (h' : SameAction t₂ t₃) :
    SameAction t₁ t₃ :=
  ⟨h'.transactionId.trans h.transactionId, h'.userId.trans h.userId⟩

theorem SameTarget.trans {o₁ o₂ o₃ : Output} (h : SameTarget o₁ o₂) (h' : SameTarget o₂ o₃) :
    SameTarget o₁ o₃ :=
  ⟨h'.outputId.trans h.outputId, h'.userId.trans h.userId, h'.transactionId.trans h.transactionId,
    h'.vout.trans h.vout⟩

/-- Rewriting old rows only. -/
theorem KeepsRows.of_rewritten (ht : ∀ t' ∈ d'.transactions, ∃ t ∈ d.transactions, SameAction t t')
    (ho : ∀ o' ∈ d'.outputs, ∃ o ∈ d.outputs, SameTarget o o') : KeepsRows d d' :=
  ⟨fun t' h => .inl (ht t' h), fun o' h => .inl (ho o' h)⟩

theorem sameTarget_outputs (h : d'.outputs = d.outputs) :
    ∀ o' ∈ d'.outputs, ∃ o ∈ d.outputs, SameTarget o o' :=
  fun o' ho' => ⟨o', h ▸ ho', rfl, rfl, rfl, rfl⟩

theorem sameAction_transactions (h : d'.transactions = d.transactions) :
    ∀ t' ∈ d'.transactions, ∃ t ∈ d.transactions, SameAction t t' :=
  fun t' ht' => ⟨t', h ▸ ht', rfl, rfl⟩

theorem sentBy_sameAction {userId : Nat} {txids : List String} {t t' : Transaction}
    (h : SentBy d userId txids t t') : SameAction t t' := by
  rcases h with rfl | ⟨-, -, stamp, rfl⟩
  · exact ⟨rfl, rfl⟩
  · exact ⟨rfl, rfl⟩

theorem sameAction_setFirstStatus {txid : String} {status : TransactionStatus} :
    ∀ t' ∈ (d.setFirstStatus txid status).transactions, ∃ t ∈ d.transactions, SameAction t t' := by
  intro t' ht'
  obtain ⟨t, ht, rfl⟩ := mem_setFirstStatus.mp ht'
  refine ⟨t, ht, ?_⟩
  split <;> exact ⟨rfl, rfl⟩

theorem sameTarget_release {c : Output → Bool} (h : d'.outputs = (d.releaseWhere c).outputs) :
    ∀ o' ∈ d'.outputs, ∃ o ∈ d.outputs, SameTarget o o' := by
  intro o' ho'
  rw [h] at ho'
  obtain ⟨o, ho, rfl⟩ := mem_releaseWhere.mp ho'
  refine ⟨o, ho, ?_⟩
  split <;> exact ⟨rfl, rfl, rfl, rfl⟩

theorem keepsRows_scheduled {userId : Nat} {txids : List String}
    (h : Scheduled d userId txids d') : KeepsRows d d' := by
  refine .of_rewritten (fun t' ht' => ?_) (sameTarget_outputs h.outputs)
  obtain ⟨t, ht, hsent⟩ := h.transactions t' ht'
  exact ⟨t, ht, sentBy_sameAction hsent⟩

theorem KeepsRows.of_core {s₁ : Store} (core : SameCore s s₁) (h : KeepsRows s₁.toTables d) :
    KeepsRows s.toTables d := by
  obtain ⟨ht, ho⟩ := h
  rw [core.transactions] at ht
  rw [core.outputs] at ho
  exact ⟨ht, ho⟩

theorem keepsRows_internalized {tracker : ChainTracker} {args : StorageInternalizeActionArgs}
    {userId id : Nat} {c : Internalizing} {s₁ : Store} (core : SameCore s s₁)
    (prepared : Prepared sdk tracker s₁ userId args c) (h : Internalized sdk c s s' id) :
    KeepsRows s.toTables s'.toTables := by
  have hexisting : ∀ e, c.existing = some e → e ∈ s.transactions ∧ e.userId = c.userId := by
    intro e he
    have hfound := verifyOneOrNone_first prepared.existing
    rw [he, core.transactions] at hfound
    obtain ⟨hmem, hsel⟩ := Table.first_some hfound.symm
    simp only [Bool.and_eq_true, beq_iff_eq] at hsel
    exact ⟨hmem, hsel.1.trans prepared.user.symm⟩
  have hsubject : ∀ t, SubjectAfter sdk c s s' id t → t.transactionId = id ∧ t.userId = c.userId := by
    rintro t (⟨e, he, stamp, rfl⟩ | ⟨-, -, provenTxId, now, rfl, -⟩)
    · exact ⟨h.target e he, (hexisting e he).2⟩
    · exact ⟨rfl, rfl⟩
  refine ⟨fun t ht => ?_, fun o ho => ?_⟩
  · rcases h.transactions t ht with hold | ⟨e, he, stamp, rfl⟩ | ⟨-, hfresh, provenTxId, now, rfl, -⟩
    · exact .inl ⟨t, hold, rfl, rfl⟩
    · exact .inl ⟨e, (hexisting e he).1, rfl, rfl⟩
    · exact .inr hfresh
  · rcases h.outputs o ho with ⟨o₀, h₀, hsame⟩ | htaken
    · exact .inl ⟨o₀, h₀, hsame.outputId, hsame.userId, hsame.transactionId, hsame.vout⟩
    · obtain ⟨t, ht, hid⟩ := h.subjectRow
      refine .inr ⟨t, ht, hid.trans htaken.transactionId.symm, ?_⟩
      rw [htaken.userId]
      rcases h.transactions t ht with hold | hafter
      · cases hex : c.existing with
        | none => exact absurd hid (h.fresh hex t hold)
        | some e =>
          obtain ⟨he, huser⟩ := hexisting e hex
          rw [Table.eq_of_key_eq hold he (hid.trans (h.target e hex).symm)]
          exact huser
      · exact (hsubject t hafter).2

theorem keepsRows_signer {services : Services} {txid : String} {move : SignerMove} :
    KeepsRows s.toTables (signerEffect services s txid move) := by
  cases move with
  | nothing => exact .of_rewritten (sameAction_transactions rfl) (sameTarget_outputs rfl)
  | accept orphan =>
    exact .of_rewritten sameAction_setFirstStatus (sameTarget_outputs setFirstStatus_outputs)
  | retry =>
    exact .of_rewritten sameAction_setFirstStatus (sameTarget_outputs setFirstStatus_outputs)
  | fail doubleSpend =>
    simp only [signerEffect]
    split
    · exact .of_rewritten (sameAction_transactions rfl) (sameTarget_outputs rfl)
    · unfold permanentFailure
      refine .of_rewritten sameAction_setFirstStatus fun o' ho' => ?_
      obtain ⟨o₁, h₁, hsame⟩ := sameTarget_release rfl o' ho'
      obtain ⟨o, ho, rfl⟩ := mem_retire.mp h₁
      refine ⟨o, setFirstStatus_outputs ▸ ho, SameTarget.trans ?_ hsame⟩
      split <;> exact ⟨rfl, rfl, rfl, rfl⟩

theorem keepsRows_post {services : Services} {req : ProvenTxReq} {p : Posting} :
    KeepsRows d (postingEffect services d req p) := by
  cases p with
  | skipped => exact .of_rewritten (sameAction_transactions rfl) (sameTarget_outputs rfl)
  | missingSource => exact .of_rewritten (sameAction_transactions rfl) (sameTarget_outputs rfl)
  | unusable => exact .of_rewritten (sameAction_transactions rfl) (sameTarget_outputs rfl)
  | posted v =>
    simp only [postingEffect, verdictEffect]
    split
    · refine .of_rewritten (sameAction_setFirstStatus (d := (Stmt.apply d _).2)) fun o' ho' => ?_
      obtain ⟨o₁, h₁, hsame⟩ := sameTarget_release rfl o' ho'
      rw [setFirstStatus_outputs] at h₁
      exact ⟨o₁, h₁, hsame⟩
    · exact .of_rewritten (sameAction_setFirstStatus (d := (Stmt.apply d _).2))
        (sameTarget_outputs (setFirstStatus_outputs (d := (Stmt.apply d _).2)))
    · exact .of_rewritten (sameAction_transactions rfl) (sameTarget_outputs rfl)

theorem keepsRows_prove {req : ProvenTxReq} {move : ProofMove} :
    KeepsRows d (proofEffect d req move) := by
  cases move with
  | save provenTx =>
    simp only [proofEffect, Tables.linkProof]
    split
    · exact .of_rewritten (sameAction_transactions rfl) (sameTarget_outputs rfl)
    · refine .of_rewritten (fun t' ht' => ?_) (sameTarget_outputs rfl)
      obtain ⟨t, ht, rfl⟩ := mem_completeAll.mp ht'
      refine ⟨t, ht, ?_⟩
      split <;> exact ⟨rfl, rfl⟩
  | _ => exact .of_rewritten (sameAction_transactions rfl) (sameTarget_outputs rfl)

end KeepsRows

theorem Effect.keepsRows {op : Op} {s' : Store} (h : Effect sdk s op s') :
    KeepsRows s.toTables s'.toTables := by
  cases h with
  | same h =>
    exact .of_rewritten (sameAction_transactions h.transactions) (sameTarget_outputs h.outputs)
  | create _ reports =>
    have h := reports.created
    obtain ⟨t', ht', hnew⟩ := h.added
    refine ⟨fun t ht => ?_, fun o ho => ?_⟩
    · rcases h.transactions t ht with hold | hn
      · exact .inl ⟨t, hold, rfl, rfl⟩
      · exact .inr fun t₀ h₀ => hn.transactionId ▸ h.fresh t₀ h₀
    · rcases h.outputs o ho with hold | ⟨o₀, h₀, -, now, rfl⟩ | hn
      · exact .inl ⟨o, hold, rfl, rfl, rfl, rfl⟩
      · exact .inl ⟨o₀, h₀, rfl, rfl, rfl, rfl⟩
      · exact .inr ⟨t', ht', hnew.transactionId.trans hn.transactionId.symm,
          hnew.userId.trans hn.userId.symm⟩
  | send _ core batch => exact (keepsRows_scheduled batch).of_core core
  | commit _ core found _ batch =>
    refine (KeepsRows.of_rewritten (fun t' ht' => ?_) fun o' ho' => ?_).of_core core
    · obtain ⟨t₁, h₁, hsent⟩ := batch.transactions t' ht'
      obtain ⟨t, ht, rfl⟩ := mem_commitSigned_transactions.mp h₁
      refine ⟨t, ht, SameAction.trans ?_ (sentBy_sameAction hsent)⟩
      split <;> exact ⟨rfl, rfl⟩
    · rw [batch.outputs] at ho'
      obtain ⟨o, ho, rfl⟩ := mem_commitSigned_outputs.mp ho'
      refine ⟨o, ho, ?_⟩
      split <;> exact ⟨rfl, rfl, rfl, rfl⟩
  | abort found h =>
    rw [h]
    refine .of_rewritten (fun t' ht' => ?_) fun o' ho' => ?_
    · obtain ⟨t, ht, rfl⟩ := abortEffect_transactions.mp ht'
      refine ⟨t, ht, ?_⟩
      split <;> exact ⟨rfl, rfl⟩
    · rw [abortEffect_outputs] at ho'
      obtain ⟨o₁, h₁, rfl⟩ := mem_retireOwn.mp ho'
      obtain ⟨o, ho, hsame⟩ := sameTarget_release rfl o₁ h₁
      refine ⟨o, ho, hsame.trans ?_⟩
      split <;> exact ⟨rfl, rfl, rfl, rfl⟩
  | internalize core prepared h => exact keepsRows_internalized core prepared h
  | signer h =>
    rw [h]
    exact keepsRows_signer
  | post h =>
    rw [h]
    exact keepsRows_post
  | prove h =>
    rw [h]
    exact keepsRows_prove
  | unfail h =>
    rw [h]
    refine .of_rewritten (fun t' ht' => ?_) fun o' ho' => ?_
    · obtain ⟨t, ht, hback⟩ := unfailEffect_rows.transactions t' ht'
      refine ⟨t, ht, ?_⟩
      rcases hback with rfl | ⟨-, stamp, rfl⟩ <;> exact ⟨rfl, rfl⟩
    · obtain ⟨o, ho, hsame⟩ := unfailEffect_rows.outputs o' ho'
      exact ⟨o, ho, hsame.outputId, hsame.userId, hsame.transactionId, hsame.vout⟩

/-! ## Tasks over a list of requests -/

end WalletToolbox
