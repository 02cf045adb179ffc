import WalletToolbox.Laws.System
import WalletToolbox.Laws.FailAbandoned
import WalletToolbox.Sample

/-! # Abandonment and broadcasting

The wallet with the task that fails abandoned transactions.
The task looks at the status of a transaction row only; whether the transaction can still be sent is
written in its request.
An action that was never signed has outputs that nobody can use and no request, and the task may fail
it; a transaction that processAction has committed has both. -/

namespace WalletToolbox.Monitor

open WalletToolbox.Lib WalletToolbox.Storage WalletToolbox.Signer
open WalletToolbox.Lib.Prog hiding pure exec

/-! ## The system -/

/-- The store, and the transactions that the task has set to failed. -/
structure Watched where
  store : Store
  abandoned : List Nat

/-- What happens: a call of the wallet, a deferred createAction, or a run of the task. -/
inductive Happening where
  | call (op : Op)
  | createDeferred (services : Services) (backend : SigningBackend) (entropy : Entropy)
      (auth random : String) (args : ValidCreateActionArgs)
  | failAbandoned (abandonedMsecs : UInt64)

/-- The rows that a run sets to failed: for each old row with a txid, the first row with this txid. -/
def abandonedBy (s : Store) (abandonedMsecs : UInt64) : List Transaction :=
  ((pagesRead (cutoffOf s.toTables abandonedMsecs) (s.transactions.rows.length + 1) 0
    s.toTables).filter (aged (cutoffOf s.toTables abandonedMsecs))).filterMap
      fun t => t.txid.bind s.toTables.firstTx

/-- Callers, the signer and the tasks that post requests. -/
def sends (kind : OpKind) : Bool :=
  kind != .prove && kind != .unfail

def Happening.Enabled (w : Watched) : Happening → Prop
  | .call op => sends op.kind = true ∧ op.Enabled w.store
  | .createDeferred _ _ _ _ _ args => args.isSignAction = true
  | .failAbandoned _ => True

def Happening.next (kit : Toolkit) (w : Watched) : Happening → Watched
  | .call op => { w with store := op.run kit.sdk w.store }
  | .createDeferred services backend entropy auth random args =>
    let deferred := signerCreateAction kit services backend entropy auth random args
    { w with store := leaves w.store deferred }
  | .failAbandoned abandonedMsecs =>
    { store := leaves w.store (Monitor.failAbandoned abandonedMsecs)
      abandoned := (abandonedBy w.store abandonedMsecs).map (·.transactionId) ++ w.abandoned }

/-- The wallet with the task, from an empty database on. -/
def abandonment (kit : Toolkit) : System Watched Happening where
  init := { store := Store.empty, abandoned := [] }
  Enabled := Happening.Enabled
  next a w := a.next kit w

/-- The statuses from which `TaskSendWaiting` or `schedule_send_with` posts a request. -/
def sendable (status : ProvenTxReqStatus) : Bool :=
  status == .unsent || status == .sending || status == .unprocessed || status == .nosend

/-- No abandoned transaction has a spendable output or a request that would still be posted. -/
def NotSendable (w : Watched) : Prop :=
  ∀ t ∈ w.store.transactions, t.transactionId ∈ w.abandoned →
    (∀ o ∈ w.store.outputs, o.transactionId = t.transactionId → o.spendable = false) ∧
      ∀ q ∈ w.store.provenTxReqs, t.txid = some q.txid → sendable q.status = false

/-- The txid of an abandoned transaction. -/
def AbandonedTxid (w : Watched) (txid : String) : Prop :=
  ∃ t ∈ w.store.transactions, t.transactionId ∈ w.abandoned ∧ t.txid = some txid

/-- What is asked of a step: a run of the task sets only transactions to failed that are unsigned and
whose txid has no request, and nobody brings in a transaction under the txid of an abandoned one. -/
def Happening.Harmless (kit : Toolkit) (w : Watched) : Happening → Prop
  | .failAbandoned abandonedMsecs => ∀ f ∈ abandonedBy w.store abandonedMsecs,
      f.status = .unsigned ∧ ∀ q ∈ w.store.provenTxReqs, f.txid ≠ some q.txid
  | .call (.processAction _ args _) => args.isNewTx = true →
      ∀ txid, args.txid = some txid → ¬ AbandonedTxid w txid
  | .call (.internalizeAction _ _ args) => ∀ beef subject, kit.sdk.parseBeef args.tx = .ok beef →
      findSubject beef = .ok subject → ¬ AbandonedTxid w subject.txid
  | _ => True

/-! ## The invariant -/

/-- An output that is planned only. -/
structure Idle (o : Output) : Prop where
  spendable : o.spendable = false
  spentBy : o.spentBy = none
  txid : o.txid = none

/-- The outputs of a transaction are planned only. -/
def Dormant (d : Tables) (id : Nat) : Prop :=
  ∀ o ∈ d.outputs, o.transactionId = id → Idle o

/-- Unsigned and abandoned transactions are dormant; abandoned ones are no longer selected by the
task or by processAction, and they have no request. -/
structure Quiet (d : Tables) (abandoned : List Nat) : Prop where
  unsigned : ∀ t ∈ d.transactions, t.status = .unsigned → Dormant d t.transactionId
  there : ∀ i ∈ abandoned, ∃ t ∈ d.transactions, t.transactionId = i
  dormant : ∀ i ∈ abandoned, Dormant d i
  settled : ∀ t ∈ d.transactions, t.transactionId ∈ abandoned → abandonable t.status = false
  unrequested : ∀ t ∈ d.transactions, t.transactionId ∈ abandoned →
    ∀ q ∈ d.provenTxReqs, t.txid ≠ some q.txid

theorem Quiet.notSendable {w : Watched} (h : Quiet w.store.toTables w.abandoned) : NotSendable w := by
  intro t ht hid
  refine ⟨fun o ho hown => (h.dormant _ hid o ho hown).spendable, fun q hq htxid => ?_⟩
  exact absurd htxid (h.unrequested t ht hid q hq)

/-! ## Steps that bring in nothing -/

/-- Rows are rewritten: a transaction keeps its txid and does not become abandonable, an output that
is planned only stays so, and no request is added. -/
structure Calm (d d' : Tables) : Prop where
  transactions : ∀ t' ∈ d'.transactions, ∃ t ∈ d.transactions,
    t'.transactionId = t.transactionId ∧ t'.txid = t.txid ∧
      (t'.status = t.status ∨ abandonable t'.status = false)
  kept : ∀ t ∈ d.transactions, ∃ t' ∈ d'.transactions, t'.transactionId = t.transactionId
  outputs : ∀ o' ∈ d'.outputs, ∃ o ∈ d.outputs,
    o'.transactionId = o.transactionId ∧ (Idle o → Idle o')
  requests : ∀ q' ∈ d'.provenTxReqs, ∃ q ∈ d.provenTxReqs, q'.txid = q.txid

variable {kit : Toolkit} {sdk : Sdk} {s s' : Store} {d d' d₁ d₂ d₃ : Tables} {abandoned : List Nat}

theorem Calm.of_tables (ht : d'.transactions = d.transactions) (ho : d'.outputs = d.outputs)
    (hq : d'.provenTxReqs = d.provenTxReqs) : Calm d d' := by
  refine ⟨fun t h => ⟨t, ht ▸ h, rfl, rfl, .inl rfl⟩, fun t h => ⟨t, ht ▸ h, rfl⟩,
    fun o h => ⟨o, ho ▸ h, rfl, fun hi => hi⟩, fun q h => ⟨q, hq ▸ h, rfl⟩⟩

theorem Calm.trans (h : Calm d₁ d₂) (h' : Calm d₂ d₃) : Calm d₁ d₃ := by
  refine ⟨fun t₃ h₃ => ?_, fun t₁ h₁ => ?_, fun o₃ h₃ => ?_, fun q₃ h₃ => ?_⟩
  · obtain ⟨t₂, h₂, hid, htxid, hstatus⟩ := h'.transactions t₃ h₃
    obtain ⟨t₁, h₁, hid', htxid', hstatus'⟩ := h.transactions t₂ h₂
    refine ⟨t₁, h₁, hid.trans hid', htxid.trans htxid', ?_⟩
    rcases hstatus with heq | hnot
    · rw [heq]
      exact hstatus'
    · exact .inr hnot
  · obtain ⟨t₂, h₂, hid⟩ := h.kept t₁ h₁
    obtain ⟨t₃, h₃, hid'⟩ := h'.kept t₂ h₂
    exact ⟨t₃, h₃, hid'.trans hid⟩
  · obtain ⟨o₂, h₂, hid, hidle⟩ := h'.outputs o₃ h₃
    obtain ⟨o₁, h₁, hid', hidle'⟩ := h.outputs o₂ h₂
    exact ⟨o₁, h₁, hid.trans hid', fun hi => hidle (hidle' hi)⟩
  · obtain ⟨q₂, h₂, htxid⟩ := h'.requests q₃ h₃
    obtain ⟨q₁, h₁, htxid'⟩ := h.requests q₂ h₂
    exact ⟨q₁, h₁, htxid.trans htxid'⟩

theorem Calm.dormant {id : Nat} (h : Calm d d') (hd : Dormant d id) : Dormant d' id := by
  intro o' ho' hown
  obtain ⟨o, ho, hid, hidle⟩ := h.outputs o' ho'
  exact hidle (hd o ho (hid.symm.trans hown))

theorem Quiet.calm (hq : Quiet d abandoned) (h : Calm d d') : Quiet d' abandoned := by
  refine ⟨fun t' ht' hstatus => ?_, fun i hi => ?_, fun i hi => h.dormant (hq.dormant i hi),
    fun t' ht' hid => ?_, fun t' ht' hid q' hq' => ?_⟩
  · obtain ⟨t, ht, hid, -, heq | hnot⟩ := h.transactions t' ht'
    · rw [hid]
      exact h.dormant (hq.unsigned t ht (heq.symm.trans hstatus))
    · rw [hstatus] at hnot
      cases hnot
  · obtain ⟨t, ht, hid⟩ := hq.there i hi
    obtain ⟨t', ht', hid'⟩ := h.kept t ht
    exact ⟨t', ht', hid'.trans hid⟩
  · obtain ⟨t, ht, hid', -, heq | hnot⟩ := h.transactions t' ht'
    · rw [heq]
      exact hq.settled t ht (hid' ▸ hid)
    · exact hnot
  · obtain ⟨t, ht, hid', htxid, -⟩ := h.transactions t' ht'
    obtain ⟨q, hqm, hqtxid⟩ := h.requests q' hq'
    rw [htxid, hqtxid]
    exact hq.unrequested t ht (hid' ▸ hid) q hqm

/-! ### The writes of such steps -/

/-- A rewriting of the transactions alone. -/
theorem Calm.of_transactions {f : Transaction → Transaction}
    (hmem : ∀ t', t' ∈ d'.transactions ↔ ∃ t ∈ d.transactions, t' = f t)
    (hf : ∀ t ∈ d.transactions, (f t).transactionId = t.transactionId ∧ (f t).txid = t.txid ∧
      ((f t).status = t.status ∨ abandonable (f t).status = false))
    (ho : d'.outputs = d.outputs) (hq : d'.provenTxReqs = d.provenTxReqs) : Calm d d' := by
  refine ⟨fun t' ht' => ?_, fun t ht => ⟨f t, (hmem _).mpr ⟨t, ht, rfl⟩, (hf t ht).1⟩,
    fun o h => ⟨o, ho ▸ h, rfl, fun hi => hi⟩, fun q h => ⟨q, hq ▸ h, rfl⟩⟩
  obtain ⟨t, ht, rfl⟩ := (hmem t').mp ht'
  exact ⟨t, ht, hf t ht⟩

/-- A rewriting of the outputs alone. -/
theorem Calm.of_outputs {f : Output → Output} (ht : d'.transactions = d.transactions)
    (hmem : ∀ o', o' ∈ d'.outputs → ∃ o ∈ d.outputs, o' = f o)
    (hf : ∀ o ∈ d.outputs, (f o).transactionId = o.transactionId ∧ (Idle o → Idle (f o)))
    (hq : d'.provenTxReqs = d.provenTxReqs) : Calm d d' := by
  refine ⟨fun t h => ⟨t, ht ▸ h, rfl, rfl, .inl rfl⟩, fun t h => ⟨t, ht ▸ h, rfl⟩, fun o' ho' => ?_,
    fun q h => ⟨q, hq ▸ h, rfl⟩⟩
  obtain ⟨o, ho, rfl⟩ := hmem o' ho'
  exact ⟨o, ho, hf o ho⟩

/-- A rewriting of the requests alone. -/
theorem Calm.of_requests {f : ProvenTxReq → ProvenTxReq} (ht : d'.transactions = d.transactions)
    (ho : d'.outputs = d.outputs)
    (hmem : ∀ q', q' ∈ d'.provenTxReqs → ∃ q ∈ d.provenTxReqs, q' = f q)
    (hf : ∀ q, (f q).txid = q.txid) : Calm d d' := by
  refine ⟨fun t h => ⟨t, ht ▸ h, rfl, rfl, .inl rfl⟩, fun t h => ⟨t, ht ▸ h, rfl⟩,
    fun o h => ⟨o, ho ▸ h, rfl, fun hi => hi⟩, fun q' hq' => ?_⟩
  obtain ⟨q, hq, rfl⟩ := hmem q' hq'
  exact ⟨q, hq, hf q⟩

theorem calm_setFirstStatus {txid : String} {status : TransactionStatus}
    (hstatus : abandonable status = false) : Calm d (d.setFirstStatus txid status) := by
  refine .of_transactions (fun t' => mem_setFirstStatus) (fun t ht => ?_) setFirstStatus_outputs
    setFirstStatus_provenTxReqs
  split
  · exact ⟨rfl, rfl, .inr hstatus⟩
  · exact ⟨rfl, rfl, .inl rfl⟩

theorem calm_setReqs {txid : String} {p : ProvenTxReq → ProvenTxReqPartial} :
    Calm d (d.setReqs txid p) := by
  refine .of_requests rfl rfl (fun q' => mem_setReqs.mp) fun q => ?_
  split <;> rfl

theorem calm_updateProvenTxReq {id : Nat} {p : ProvenTxReqPartial} :
    Calm d ((Stmt.updateProvenTxReq id p).apply d).2 := by
  refine .of_requests rfl rfl (fun q' => mem_updateProvenTxReq.mp) fun q => ?_
  split <;> rfl

theorem calm_retire {id : Nat} : Calm d (d.retire id) := by
  refine .of_outputs rfl (fun o' => mem_retire.mp) (fun o ho => ?_) rfl
  split
  · exact ⟨rfl, fun hi => ⟨rfl, hi.spentBy, hi.txid⟩⟩
  · exact ⟨rfl, fun hi => hi⟩

theorem calm_releaseWhere {c : Output → Bool} (hc : ∀ o ∈ d.outputs, Idle o → c o = false) :
    Calm d (d.releaseWhere c) := by
  refine .of_outputs rfl (fun o' => mem_releaseWhere.mp) (fun o ho => ?_) rfl
  split
  · rename_i hsel
    refine ⟨rfl, fun hi => ?_⟩
    rw [hc o ho hi] at hsel
    cases hsel
  · exact ⟨rfl, fun hi => hi⟩

/-- Nothing that is planned only is claimed. -/
theorem Idle.not_claimed {o : Output} (h : Idle o) (id : Nat) (b : Bool) :
    (o.spentBy == some id && b) = false := by
  rw [h.spentBy]
  rfl

theorem calm_scheduled {userId : Nat} {txids : List String} (h : Scheduled d userId txids d') :
    Calm d d' := by
  refine ⟨fun t' ht' => ?_, fun t ht => ?_, fun o ho => ⟨o, h.outputs ▸ ho, rfl, fun hi => hi⟩,
    fun q' hq' => ?_⟩
  · obtain ⟨t, ht, rfl | ⟨-, -, stamp, rfl⟩⟩ := h.transactions t' ht'
    · exact ⟨t', ht, rfl, rfl, .inl rfl⟩
    · exact ⟨t, ht, rfl, rfl, .inr rfl⟩
  · obtain ⟨t', ht', hsent⟩ := h.keptTransactions t ht
    exact ⟨t', ht', (sentBy_sameAction hsent).transactionId⟩
  · obtain ⟨q, hq, hfrom⟩ := h.provenTxReqs q' hq'
    exact ⟨q, hq, hfrom.ready.1⟩

theorem calm_signer {services : Services} {txid : String} {move : SignerMove} :
    Calm s.toTables (signerEffect services s txid move) := by
  cases move with
  | nothing => exact .of_tables rfl rfl rfl
  | accept orphan =>
    have hstatus : abandonable (if orphan then .sending else .unproven) = false := by
      cases orphan <;> rfl
    exact (calm_setFirstStatus hstatus).trans calm_setReqs
  | retry => exact calm_setReqs.trans (calm_setFirstStatus rfl)
  | fail doubleSpend =>
    simp only [signerEffect]
    split
    · exact .of_tables rfl rfl rfl
    · exact (calm_setFirstStatus rfl).trans (calm_setReqs.trans (calm_retire.trans
        (calm_releaseWhere fun o _ hi => hi.not_claimed _ _)))

theorem abandonable_cascadeStatus {status : ProvenTxReqStatus} {t : TransactionStatus}
    (h : cascadeStatus status = some t) : abandonable t = false := by
  cases status <;> cases h <;> rfl

theorem calm_post {services : Services} {req : ProvenTxReq} {p : Posting} :
    Calm d (postingEffect services d req p) := by
  cases p with
  | skipped => exact .of_tables rfl rfl rfl
  | missingSource => exact .of_tables rfl rfl rfl
  | unusable => exact calm_updateProvenTxReq
  | posted v =>
    simp only [postingEffect, verdictEffect]
    split
    · exact calm_updateProvenTxReq.trans ((calm_setFirstStatus rfl).trans
        (calm_releaseWhere fun o _ hi => hi.not_claimed _ _))
    · rename_i hstatus _
      exact calm_updateProvenTxReq.trans (calm_setFirstStatus (abandonable_cascadeStatus hstatus))
    · exact calm_updateProvenTxReq

/-- The rows that an abort releases are claimed, or they have a txid. -/
theorem not_aborted {userId : Nat} {tx : Transaction} {ids : List Nat}
    (h : abortInputIds sdk s userId tx = .ok ids) {o : Output} (ho : o ∈ s.outputs) (hi : Idle o) :
    o.outputId ∉ ids := by
  have hclaimed : o.outputId ∉ (s.outputs.find fun o =>
      o.userId == userId && o.spentBy == some tx.transactionId).map (·.outputId) := by
    intro hmem
    obtain ⟨o', ho', hid⟩ := List.mem_map.mp hmem
    obtain ⟨ho', hsel⟩ := Table.mem_find.mp ho'
    rw [Table.eq_of_key_eq ho' ho hid, hi.spentBy] at hsel
    simp at hsel
  unfold abortInputIds at h
  dsimp only at h
  split at h
  · cases h
    exact hclaimed
  · split at h
    · cases h
    · rename_i parsed _
      cases h
      rw [List.mem_eraseDups, List.map_append, List.mem_append, not_or]
      refine ⟨hclaimed, fun hmem => ?_⟩
      obtain ⟨o', ho', hid⟩ := List.mem_map.mp hmem
      obtain ⟨input, -, hrow⟩ := List.mem_flatMap.mp ho'
      split at hrow
      · cases hrow
      · obtain ⟨hrow, hsel⟩ := Table.mem_find.mp hrow
        rw [Table.eq_of_key_eq hrow ho hid, hi.txid] at hsel
        simp at hsel

theorem calm_abort {auth : String} {reference : Bytes} {stamp : String} {user : User}
    {tx : Transaction} {ids : List Nat} {req : Option (ProvenTxReq × Json)}
    (found : Abortable sdk s auth reference stamp user tx ids req) :
    Calm s.toTables (abortEffect s.toTables user.userId tx.transactionId ids req) := by
  have hrelease : Calm s.toTables (s.toTables.releaseWhere (releasable ids tx.transactionId)) :=
    calm_releaseWhere fun o ho hi => by
      have hnot := not_aborted found.inputs ho hi
      simp [releasable, hnot]
  have hretire : ∀ d : Tables, Calm d (d.retireOwn user.userId tx.transactionId) := by
    intro d
    refine .of_outputs rfl (fun o' => mem_retireOwn.mp) (fun o _ => ?_) rfl
    split
    · exact ⟨rfl, fun hi => ⟨rfl, rfl, hi.txid⟩⟩
    · exact ⟨rfl, fun hi => hi⟩
  have hfail : ∀ d : Tables, Calm d
      ((Stmt.updateTransaction tx.transactionId { status := some .failed }).apply d).2 := by
    intro d
    refine .of_transactions (fun t' => mem_updateTransaction) (fun t _ => ?_) rfl rfl
    split
    · exact ⟨rfl, rfl, .inr rfl⟩
    · exact ⟨rfl, rfl, .inl rfl⟩
  have hinvalidate : ∀ d : Tables, Calm d (d.invalidate req) := by
    intro d
    unfold Tables.invalidate
    split
    · exact .of_tables rfl rfl rfl
    · exact calm_updateProvenTxReq
  exact hrelease.trans ((hretire _).trans ((hfail _).trans (hinvalidate _)))

/-! ## Steps that bring in something -/

/-- createAction plans a new action; it claims free outputs only. -/
theorem Quiet.created {userId id : Nat} {reference : String} (hq : Quiet s.toTables abandoned)
    (h : Created s s' userId id reference) : Quiet s'.toTables abandoned := by
  -- outputs of an action that was there
  have hold : ∀ i, (∃ t ∈ s.transactions, t.transactionId = i) → Dormant s.toTables i →
      Dormant s'.toTables i := by
    rintro i ⟨t, ht, hti⟩ hd o' ho' hown
    rcases h.outputs o' ho' with ho | ⟨o, ho, hfree, now, rfl⟩ | hnew
    · exact hd o' ho hown
    · have hidle := (hd o ho hown).spendable
      rw [hfree.spendable] at hidle
      cases hidle
    · exact absurd (hti.trans (hown.symm.trans hnew.transactionId)) (h.fresh t ht)
  have hnotNew : ∀ t ∈ s'.transactions, t.transactionId ∈ abandoned → t ∈ s.transactions := by
    intro t ht hid
    rcases h.transactions t ht with hmem | hnew
    · exact hmem
    · obtain ⟨t₀, ht₀, hid₀⟩ := hq.there _ hid
      exact absurd (hid₀.trans hnew.transactionId) (h.fresh t₀ ht₀)
  refine ⟨fun t ht hstatus => ?_, fun i hi => ?_, fun i hi => hold i (hq.there i hi) (hq.dormant i hi),
    fun t ht hid => hq.settled t (hnotNew t ht hid) hid, fun t ht hid q hq' => ?_⟩
  · rcases h.transactions t ht with hmem | hnew
    · exact hold _ ⟨t, hmem, rfl⟩ (hq.unsigned t hmem hstatus)
    · rw [hnew.transactionId]
      have hfresh : ∀ o ∈ s.outputs, o.transactionId ≠ id := by
        intro o ho hown
        obtain ⟨t₀, ht₀, hid₀⟩ := s.foreign.outputTransaction o ho
        exact h.fresh t₀ ht₀ (hid₀.trans hown)
      intro o' ho' hown
      rcases h.outputs o' ho' with ho | ⟨o, ho, -, now, rfl⟩ | hplanned
      · exact absurd hown (hfresh o' ho)
      · exact absurd hown (hfresh o ho)
      · exact ⟨hplanned.spendable, hplanned.spentBy, hplanned.txid⟩
  · obtain ⟨t, ht, hid⟩ := hq.there i hi
    exact ⟨t, h.keptTransactions t ht, hid⟩
  · rw [h.provenTxReqs] at hq'
    exact hq.unrequested t (hnotNew t ht hid) hid q hq'

/-- Naming an action that is not abandoned. -/
theorem Quiet.named {id : Nat} {txid : String} (hq : Quiet d abandoned) (hid : id ∉ abandoned) :
    Quiet ((Stmt.updateTransaction id { txid := some txid }).apply d).2 abandoned := by
  have hrow : ∀ t' ∈ ((Stmt.updateTransaction id { txid := some txid }).apply d).2.transactions,
      ∃ t ∈ d.transactions, t'.transactionId = t.transactionId ∧ t'.status = t.status ∧
        (t'.transactionId ∈ abandoned → t' = t) := by
    intro t' ht'
    obtain ⟨t, ht, rfl⟩ := mem_updateTransaction.mp ht'
    refine ⟨t, ht, ?_⟩
    split
    · rename_i heq
      exact ⟨rfl, rfl, fun habandoned => absurd (heq ▸ habandoned) hid⟩
    · exact ⟨rfl, rfl, fun _ => rfl⟩
  refine ⟨fun t' ht' hstatus => ?_, fun i hi => ?_, hq.dormant, fun t' ht' hab => ?_,
    fun t' ht' hab => ?_⟩
  · obtain ⟨t, ht, heq, hsame, -⟩ := hrow t' ht'
    rw [heq]
    exact hq.unsigned t ht (hsame.symm.trans hstatus)
  · obtain ⟨t, ht, heq⟩ := hq.there i hi
    refine ⟨_, mem_updateTransaction.mpr ⟨t, ht, rfl⟩, ?_⟩
    split <;> exact heq
  · obtain ⟨t, ht, -, -, hsame⟩ := hrow t' ht'
    obtain rfl := hsame hab
    exact hq.settled t' ht hab
  · obtain ⟨t, ht, -, -, hsame⟩ := hrow t' ht'
    obtain rfl := hsame hab
    exact hq.unrequested t' ht hab

/-- processAction commits an action that is not abandoned, under a txid that no abandoned one has. -/
theorem Quiet.committed {userId : Nat} {tx : Transaction} {txid : String} {rawTx : Bytes}
    {status : ReqTxStatus} (hq : Quiet d abandoned) (hmem : tx ∈ d.transactions)
    (hpending : abandonable tx.status = true) (hstatus : status.tx ≠ .unsigned)
    (htxid : ∀ t ∈ d.transactions, t.transactionId ∈ abandoned → t.txid ≠ some txid) :
    Quiet (d.commitSigned userId tx txid rawTx status) abandoned := by
  have hnot : tx.transactionId ∉ abandoned := by
    intro hid
    rw [hq.settled tx hmem hid] at hpending
    cases hpending
  have hothers : ∀ i, i ≠ tx.transactionId → Dormant d i →
      Dormant (d.commitSigned userId tx txid rawTx status) i := by
    intro i hne hd o' ho' hown
    obtain ⟨o, ho, rfl⟩ := mem_commitSigned_outputs.mp ho'
    split at hown
    · rename_i hsel
      have hsame : o.transactionId = tx.transactionId := by
        rw [Bool.and_eq_true] at hsel
        exact beq_iff_eq.mp hsel.2
      exact absurd (hown.symm.trans hsame) hne
    · rename_i hother
      rw [if_neg hother]
      exact hd o ho hown
  have hrow : ∀ t' ∈ (d.commitSigned userId tx txid rawTx status).transactions,
      (t'.transactionId = tx.transactionId ∧ t'.status = status.tx) ∨
        (t'.transactionId ≠ tx.transactionId ∧ t' ∈ d.transactions) := by
    intro t' ht'
    obtain ⟨t, ht, rfl⟩ := mem_commitSigned_transactions.mp ht'
    split
    · rename_i heq
      exact .inl ⟨heq, rfl⟩
    · rename_i hne
      exact .inr ⟨hne, ht⟩
  have hold : ∀ t' ∈ (d.commitSigned userId tx txid rawTx status).transactions,
      t'.transactionId ∈ abandoned → t' ∈ d.transactions := by
    intro t' ht' hid
    rcases hrow t' ht' with ⟨heq, -⟩ | ⟨-, hmem'⟩
    · exact absurd (heq ▸ hid) hnot
    · exact hmem'
  refine ⟨fun t' ht' hunsigned => ?_, fun i hi => ?_,
    fun i hi => hothers i (fun heq => hnot (heq ▸ hi)) (hq.dormant i hi),
    fun t' ht' hid => hq.settled t' (hold t' ht' hid) hid, fun t' ht' hid q hqm => ?_⟩
  · rcases hrow t' ht' with ⟨-, heq⟩ | ⟨hne, hmem'⟩
    · exact absurd (heq.symm.trans hunsigned) hstatus
    · exact hothers _ hne (hq.unsigned t' hmem' hunsigned)
  · obtain ⟨t, ht, heq⟩ := hq.there i hi
    refine ⟨_, mem_commitSigned_transactions.mpr ⟨t, ht, rfl⟩, ?_⟩
    split <;> exact heq
  · rcases mem_commitSigned_provenTxReqs.mp hqm with hqm | rfl
    · exact hq.unrequested t' (hold t' ht' hid) hid q hqm
    · exact htxid t' (hold t' ht' hid) hid

/-- The row that an internalized transaction is merged into. -/
theorem existing_mergeable {tracker : ChainTracker} {userId : Nat}
    {args : StorageInternalizeActionArgs} {c : Internalizing} {e : Transaction}
    (h : Prepared sdk tracker s userId args c) (he : c.existing = some e) :
    e ∈ s.transactions ∧ e.txid = some c.subject.txid ∧ e.status ≠ .unsigned := by
  have hfound := verifyOneOrNone_first h.existing
  rw [he] at hfound
  obtain ⟨hmem, hsel⟩ := Table.first_some hfound.symm
  rw [Bool.and_eq_true] at hsel
  refine ⟨hmem, beq_iff_eq.mp hsel.2, fun hunsigned => ?_⟩
  have hmerge := h.mergeable
  rw [he] at hmerge
  simp [checkMergeable, hunsigned] at hmerge

/-- internalizeAction adds outputs to a transaction that is neither unsigned nor abandoned. -/
theorem Quiet.internalized {tracker : ChainTracker} {args : StorageInternalizeActionArgs}
    {userId id : Nat} {c : Internalizing} {s₁ : Store} (hq : Quiet s.toTables abandoned)
    (core : SameCore s s₁) (prepared : Prepared sdk tracker s₁ userId args c)
    (h : Internalized sdk c s s' id)
    (htxid : ∀ t ∈ s.transactions, t.transactionId ∈ abandoned → t.txid ≠ some c.subject.txid) :
    Quiet s'.toTables abandoned := by
  have hexisting : ∀ e, c.existing = some e → e ∈ s.transactions ∧
      e.txid = some c.subject.txid ∧ e.status ≠ .unsigned := by
    intro e he
    rw [← core.transactions]
    exact existing_mergeable prepared he
  have htarget : ∀ t ∈ s.transactions, t.transactionId = id → c.existing = some t := by
    intro t ht hid
    cases hex : c.existing with
    | none => exact absurd hid (h.fresh hex t ht)
    | some e =>
      rw [Table.eq_of_key_eq ht (hexisting e hex).1 (hid.trans (h.target e hex).symm)]
  have hnot : id ∉ abandoned := by
    intro hid
    obtain ⟨t, ht, hti⟩ := hq.there id hid
    exact htxid t ht (hti ▸ hid) (hexisting t (htarget t ht hti)).2.1
  have hothers : ∀ i, i ≠ id → Dormant s.toTables i → Dormant s'.toTables i := by
    intro i hne hd o ho hown
    rcases h.outputs o ho with ⟨o₀, ho₀, hsame⟩ | htaken
    · have hidle := hd o₀ ho₀ (hsame.transactionId.symm.trans hown)
      exact ⟨hsame.spendable.trans hidle.spendable, hsame.spentBy.trans hidle.spentBy,
        hsame.txid.trans hidle.txid⟩
    · exact absurd (hown.symm.trans htaken.transactionId) hne
  have hrow : ∀ t ∈ s'.transactions, t ∈ s.transactions ∨
      (t.transactionId = id ∧ t.status = c.txStatus) := by
    intro t ht
    rcases h.transactions t ht with hold | ⟨e, he, stamp, rfl⟩ | ⟨-, -, provenTxId, now, rfl, -⟩
    · exact .inl hold
    · exact .inr ⟨h.target e he, rfl⟩
    · exact .inr ⟨rfl, rfl⟩
  have hold : ∀ t ∈ s'.transactions, t.transactionId ∈ abandoned → t ∈ s.transactions := by
    intro t ht hid
    rcases hrow t ht with hmem | ⟨heq, -⟩
    · exact hmem
    · exact absurd (heq ▸ hid) hnot
  refine ⟨fun t ht hunsigned => ?_, fun i hi => ?_,
    fun i hi => hothers i (fun heq => hnot (heq ▸ hi)) (hq.dormant i hi),
    fun t ht hid => hq.settled t (hold t ht hid) hid, fun t ht hid q hqm => ?_⟩
  · rcases hrow t ht with hmem | ⟨-, heq⟩
    · refine hothers _ (fun hid => ?_) (hq.unsigned t hmem hunsigned)
      exact (hexisting t (htarget t hmem hid)).2.2 hunsigned
    · rw [hunsigned] at heq
      unfold Internalizing.txStatus at heq
      split at heq <;> cases heq
  · obtain ⟨t, ht, hid⟩ := hq.there i hi
    exact ⟨t, h.keptTransactions t ht fun heq => hnot (heq ▸ hid ▸ hi), hid⟩
  · rcases h.provenTxReqs q hqm with hqm | ⟨-, hproof⟩
    · exact hq.unrequested t (hold t ht hid) hid q hqm
    · rw [hproof.txid]
      exact htxid t (hold t ht hid) hid

/-! ## Calls -/

theorem quiet_call {w : Watched} {op : Op} (hq : Quiet w.store.toTables w.abandoned)
    (hkind : sends op.kind = true) (hok : (Happening.call op).Harmless kit w) {s' : Store}
    (h : Effect kit.sdk w.store op s') : Quiet s'.toTables w.abandoned := by
  cases h with
  | same h => exact hq.calm (.of_tables h.transactions h.outputs h.provenTxReqs)
  | create _ reports => exact hq.created reports.created
  | send _ core batch =>
    exact (hq.calm (.of_tables core.transactions core.outputs core.provenTxReqs)).calm
      (calm_scheduled batch)
  | commit isNewTx core found fresh batch =>
    have hcore : Quiet _ w.abandoned :=
      hq.calm (.of_tables core.transactions core.outputs core.provenTxReqs)
    refine (hcore.committed found.mem.1 ?_ ?_ fun t ht hid htxid => ?_).calm (calm_scheduled batch)
    · rcases found.pending with hstatus | hstatus
      · rw [hstatus]
        rfl
      · rw [hstatus]
        rfl
    · rcases reqTxStatus_cases found.next with ⟨-, htx⟩ | ⟨-, htx⟩
      · rw [htx]
        nofun
      · rw [htx]
        nofun
    · rw [core.transactions] at ht
      exact hok isNewTx _ found.named ⟨t, ht, hid, htxid⟩
  | abort found h =>
    rw [h]
    exact hq.calm (calm_abort found)
  | internalize core prepared h =>
    exact hq.internalized core prepared h fun t ht hid htxid =>
      hok _ _ prepared.parsed prepared.subject ⟨t, ht, hid, htxid⟩
  | signer h =>
    rw [h]
    exact hq.calm calm_signer
  | post h =>
    rw [h]
    exact hq.calm calm_post
  | prove h => cases hkind
  | unfail h => cases hkind

/-- A deferred createAction plans an action and names it. -/
theorem quiet_deferred {services : Services} {backend : SigningBackend} {entropy : Entropy}
    {auth random : String} {args : ValidCreateActionArgs} (hq : Quiet s.toTables abandoned)
    (hdeferred : args.isSignAction = true) :
    Quiet (leaves s (signerCreateAction kit services backend entropy auth random args)).toTables
      abandoned := by
  refine (wp_store (I := fun s' : Store => Quiet s'.toTables abandoned)).mp ?_
  unfold signerCreateAction
  rw [wp_bind]
  refine wp_createAction (fun userId id dcr s₁ href hreports => ?_) fun s₁ hcore =>
    hq.calm (.of_tables hcore.transactions hcore.outputs hcore.provenTxReqs)
  have hcreated := hreports.created
  have hq₁ := hq.created hcreated
  unfold finishCreateAction
  rw [wp_bind, wp_ask, wp_bind]
  refine wp_ofExcept (fun inputBeef _ => ?_) fun _ _ => hq₁
  dsimp only
  rw [wp_bind]
  refine wp_ofExcept (fun built _ => ?_) fun _ _ => hq₁
  refine wp_ite (fun _ => ?_) fun hnow => absurd hdeferred hnow
  unfold deferAction
  rw [wp_bind]
  refine wp_ofExcept (fun bytes _ => ?_) fun _ _ => hq₁
  dsimp only
  rw [wp_bind]
  refine wp_ofExcept (fun txid _ => ?_) fun _ _ => hq₁
  rw [wp_bind]
  refine wp_ofExcept (fun beef _ => ?_) fun _ _ => hq₁
  rw [wp_bind]
  refine wp_ofExcept (fun signable _ => ?_) fun _ _ => hq₁
  rw [wp_bind, wp_ask]
  cases hrow : s₁.transactions.first (·.reference == dcr.reference) with
  | none => exact hq₁
  | some row =>
    rw [wp_bind]
    refine wp_exec'_plain (by exact rfl) fun s₂ h₂ => ?_
    show Quiet s₂.toTables abandoned
    rw [h₂]
    refine hq₁.named fun hid => ?_
    -- the row with the reference is the new one
    obtain ⟨hmem, hsel⟩ := Table.first_some hrow
    obtain ⟨added, hadded, hnew⟩ := hcreated.added
    have hsame : row = added := s₁.unique.transactions.eq hmem hadded
      ((beq_iff_eq.mp hsel).trans (href.trans hnew.reference.symm))
    obtain ⟨t, ht, heq⟩ := hq.there _ hid
    exact hcreated.fresh t ht (heq.trans ((congrArg _ hsame).trans hnew.transactionId))

/-! ## Runs of the task -/

theorem calm_failedTx (tx : Transaction) : Calm d (failedTx d tx) := by
  unfold failedTx
  split
  · exact .of_tables rfl rfl rfl
  · refine (calm_setFirstStatus rfl).trans (calm_releaseWhere fun o _ hi => ?_)
    rw [hi.spentBy]
    rfl

theorem calm_failedTxs (txs : List Transaction) : Calm d (txs.foldl failedTx d) := by
  induction txs generalizing d with
  | nil => exact .of_tables rfl rfl rfl
  | cons tx txs ih => exact (calm_failedTx tx).trans ih

theorem calm_failedPages {cutoff : Int} {fuel offset : Nat} :
    Calm d (failedPages cutoff fuel offset d) := by
  induction fuel generalizing d offset with
  | zero => exact .of_tables rfl rfl rfl
  | succ fuel ih =>
    unfold failedPages
    split
    · exact calm_failedTxs _
    · exact (calm_failedTxs _).trans ih

/-- The row with the id has failed. -/
def HasFailed (d : Tables) (id : Nat) : Prop :=
  ∀ t ∈ d.transactions, t.transactionId = id → abandonable t.status = false

theorem HasFailed.calm {id : Nat} (h : HasFailed d id) (hcalm : Calm d d') : HasFailed d' id := by
  intro t' ht' hid
  obtain ⟨t, ht, hid', -, heq | hnot⟩ := hcalm.transactions t' ht'
  · rw [heq]
    exact h t ht (hid'.symm.trans hid)
  · exact hnot

theorem hasFailed_failedTx {tx f : Transaction} (h : tx.txid.bind d.firstTx = some f) :
    HasFailed (failedTx d tx) f.transactionId := by
  obtain ⟨txid, htxid, hfirst⟩ := Option.bind_eq_some_iff.mp h
  unfold failedTx
  rw [h, htxid]
  intro t' ht' hid
  obtain ⟨t, ht, rfl⟩ := mem_setFirstStatus.mp ht'
  split
  · rfl
  · rename_i hother
    rw [Option.getD_some, hfirst] at hother
    split at hid <;> exact absurd (beq_iff_eq.mpr hid.symm) hother

/-- Each row that a page sets to failed has failed after it. -/
theorem hasFailed_failedTxs {txs : List Transaction} {tx : Transaction} {id : Nat} (htx : tx ∈ txs)
    (h : (tx.txid.bind d.firstTx).map (·.transactionId) = some id) :
    HasFailed (txs.foldl failedTx d) id := by
  induction txs generalizing d with
  | nil => cases htx
  | cons other txs ih =>
    rw [List.foldl_cons]
    rcases List.mem_cons.mp htx with rfl | htx
    · obtain ⟨f, hf, rfl⟩ := Option.map_eq_some_iff.mp h
      exact (hasFailed_failedTx hf).calm (calm_failedTxs txs)
    · refine ih htx ?_
      cases htxid : tx.txid with
      | none =>
        rw [htxid] at h
        cases h
      | some txid =>
        rw [htxid, Option.bind_some] at h
        rw [Option.bind_some, firstTx_failedTx]
        exact h

theorem firstTx_failedTxs (txs : List Transaction) (txid : String) :
    ((txs.foldl failedTx d).firstTx txid).map (·.transactionId) =
      (d.firstTx txid).map (·.transactionId) := by
  induction txs generalizing d with
  | nil => rfl
  | cons tx txs ih => rw [List.foldl_cons, ih, firstTx_failedTx]

theorem hasFailed_failedPages {cutoff : Int} {fuel offset : Nat} {tx : Transaction} {id : Nat}
    (htx : tx ∈ pagesRead cutoff fuel offset d) (haged : aged cutoff tx = true)
    (h : (tx.txid.bind d.firstTx).map (·.transactionId) = some id) :
    HasFailed (failedPages cutoff fuel offset d) id := by
  induction fuel generalizing d offset with
  | zero => cases htx
  | succ fuel ih =>
    unfold pagesRead at htx
    unfold failedPages
    have hpage : tx ∈ abandonedPage offset d → HasFailed (failedPage cutoff offset d) id := fun hmem =>
      hasFailed_failedTxs (List.mem_filter.mpr ⟨hmem, haged⟩) h
    by_cases hshort : (abandonedPage offset d).length < 100
    · rw [if_pos hshort, List.append_nil] at htx
      rw [if_pos hshort]
      exact hpage htx
    · rw [if_neg hshort] at htx ⊢
      rcases List.mem_append.mp htx with hmem | hrest
      · exact (hpage hmem).calm calm_failedPages
      · refine ih hrest ?_
        cases htxid : tx.txid with
        | none =>
          rw [htxid] at h
          cases h
        | some txid =>
          rw [htxid, Option.bind_some] at h
          rw [Option.bind_some]
          exact (firstTx_failedTxs _ txid).trans h

theorem leaves_failAbandoned (s : Store) (abandonedMsecs : UInt64) :
    (leaves s (failAbandoned abandonedMsecs)).toTables =
      failedPages (cutoffOf s.toTables abandonedMsecs) (s.transactions.rows.length + 1) 0 s.toTables :=
  (wp_store (I := fun s' : Store => s'.toTables = failedPages (cutoffOf s.toTables abandonedMsecs)
    (s.transactions.rows.length + 1) 0 s.toTables)).mp (wp_failAbandoned fun _ h => h)

theorem quiet_failAbandoned {w : Watched} {abandonedMsecs : UInt64}
    (hq : Quiet w.store.toTables w.abandoned)
    (hok : (Happening.failAbandoned abandonedMsecs).Harmless kit w) :
    Quiet (leaves w.store (failAbandoned abandonedMsecs)).toTables
      ((abandonedBy w.store abandonedMsecs).map (·.transactionId) ++ w.abandoned) := by
  rw [leaves_failAbandoned]
  have hcalm : Calm w.store.toTables (failedPages (cutoffOf w.store.toTables abandonedMsecs)
      (w.store.transactions.rows.length + 1) 0 w.store.toTables) := calm_failedPages
  have hkept := hq.calm hcalm
  -- what is known of a transaction that the run sets to failed
  have hnew : ∀ i ∈ (abandonedBy w.store abandonedMsecs).map (·.transactionId),
      ∃ f ∈ w.store.transactions, f.transactionId = i ∧ f.status = .unsigned ∧
        (∀ q ∈ w.store.provenTxReqs, f.txid ≠ some q.txid) ∧
        HasFailed (failedPages (cutoffOf w.store.toTables abandonedMsecs)
          (w.store.transactions.rows.length + 1) 0 w.store.toTables) i := by
    intro i hi
    obtain ⟨f, hf, rfl⟩ := List.mem_map.mp hi
    obtain ⟨hstatus, hreq⟩ := hok f hf
    obtain ⟨tx, htx, hfirst⟩ := List.mem_filterMap.mp hf
    obtain ⟨hread, haged⟩ := List.mem_filter.mp htx
    obtain ⟨txid, -, hrow⟩ := Option.bind_eq_some_iff.mp hfirst
    refine ⟨f, (Table.first_some hrow).1, rfl, hstatus, hreq, hasFailed_failedPages hread haged ?_⟩
    rw [hfirst, Option.map_some]
  refine ⟨hkept.unsigned, fun i hi => ?_, fun i hi => ?_, fun t' ht' hid => ?_,
    fun t' ht' hid q' hq' => ?_⟩
  · rcases List.mem_append.mp hi with hi | hi
    · obtain ⟨f, hf, hid, -⟩ := hnew i hi
      obtain ⟨t', ht', hid'⟩ := hcalm.kept f hf
      exact ⟨t', ht', hid'.trans hid⟩
    · exact hkept.there i hi
  · rcases List.mem_append.mp hi with hi | hi
    · obtain ⟨f, hf, hid, hstatus, -⟩ := hnew i hi
      exact hcalm.dormant (hid ▸ hq.unsigned f hf hstatus)
    · exact hkept.dormant i hi
  · rcases List.mem_append.mp hid with hi | hi
    · obtain ⟨f, -, -, -, -, hfailed⟩ := hnew _ hi
      exact hfailed t' ht' rfl
    · exact hkept.settled t' ht' hi
  · rcases List.mem_append.mp hid with hi | hi
    · obtain ⟨f, hf, hid', -, hreq, -⟩ := hnew _ hi
      obtain ⟨t, ht, heq, htxid, -⟩ := hcalm.transactions t' ht'
      obtain rfl : t = f := Table.eq_of_key_eq ht hf (heq.symm.trans hid'.symm)
      obtain ⟨q, hqm, hqtxid⟩ := hcalm.requests q' hq'
      rw [htxid, hqtxid]
      exact hreq q hqm
    · exact hkept.unrequested t' ht' hi q' hq'

/-- In every run whose steps are harmless, no transaction that the task has set to failed has a
spendable output or a request that would still be posted. -/
theorem abandoned_not_sendable (kit : Toolkit) (w : Watched)
    (h : (abandonment kit).Reaches (fun w a => a.Harmless kit w) w) : NotSendable w := by
  refine Quiet.notSendable (h.inv (I := fun w => Quiet w.store.toTables w.abandoned) ?_ ?_)
  · exact ⟨fun t ht => absurd ht (Table.not_mem_empty t), nofun, nofun,
      fun t ht => absurd ht (Table.not_mem_empty t), fun t ht => absurd ht (Table.not_mem_empty t)⟩
  · intro w a hq henabled hok
    cases a with
    | call op => exact quiet_call hq henabled.1 hok op.run_effect
    | createDeferred services backend entropy auth random args => exact quiet_deferred hq henabled
    | failAbandoned abandonedMsecs => exact quiet_failAbandoned hq hok

/-- The payer's deferred payment. -/
def deferPayment : Happening :=
  .createDeferred (Sample.answering "success") Sample.backend Sample.entropy Sample.alice ""
    { Sample.payArgs with isSignAction := true }

/-- The wallet after some steps. -/
def afterSteps (steps : List Happening) : Watched :=
  (abandonment Sample.kit).after (abandonment Sample.kit).init steps

/-- The steps before the run of the task, five minutes after the deferred payment. -/
def deferredLongAgo : Watched :=
  afterSteps [.call Sample.fund, deferPayment, .call (.tick 300001)]

/-- A deferred payment that nobody signs is abandoned after five minutes, and nothing of it can be
sent. -/
theorem abandoned_not_sendable_deferred :
    (abandonedBy deferredLongAgo.store 300000).map (·.transactionId) = [2] ∧
      NotSendable ((abandonment Sample.kit).next (.failAbandoned 300000) deferredLongAgo) := by
  have hbefore : (abandonment Sample.kit).Reaches (fun w a => a.Harmless Sample.kit w)
      deferredLongAgo := by
    refine System.Reaches.after .init ⟨⟨⟨rfl, trivial⟩, ?_⟩, ⟨rfl, trivial⟩, ⟨⟨rfl, trivial⟩, trivial⟩,
      trivial⟩
    rintro beef subject - - ⟨t, ht, -⟩
    exact Table.not_mem_empty t ht
  have hunsigned : ∀ f ∈ abandonedBy deferredLongAgo.store 300000, f.status = .unsigned ∧
      ∀ q ∈ deferredLongAgo.store.provenTxReqs, f.txid ≠ some q.txid := by decide +kernel
  have hafter : (abandonment Sample.kit).Reaches (fun w a => a.Harmless Sample.kit w)
      ((abandonment Sample.kit).next (.failAbandoned 300000) deferredLongAgo) :=
    System.Reaches.step hbefore trivial hunsigned
  exact ⟨by decide +kernel, abandoned_not_sendable Sample.kit _ hafter⟩

/-- The payment is signed for the monitor to send, and the task sets it to failed five minutes later:
its outputs are spendable and its request is unsent. -/
theorem abandoned_still_sendable :
    ∃ w, (abandonment Sample.kit).Reaches (fun _ _ => True) w ∧ ¬ NotSendable w := by
  refine ⟨afterSteps [.call Sample.fund, .call Sample.pay, .call (Sample.sign false),
    .call (.tick 300001), .failAbandoned 300000], ?_, ?_⟩
  · exact System.Reaches.after .init ⟨⟨⟨rfl, trivial⟩, trivial⟩, ⟨⟨rfl, trivial⟩, trivial⟩,
      ⟨⟨rfl, trivial⟩, trivial⟩, ⟨⟨rfl, trivial⟩, trivial⟩, ⟨trivial, trivial⟩, trivial⟩
  · unfold NotSendable
    decide +kernel

end WalletToolbox.Monitor
