import WalletToolbox.Laws.Provider
import WalletToolbox.Methods.ProcessAction

/-! # What processAction does

A signed transaction is committed unless a request has its txid already; a batch is scheduled
txid by txid and no statement of it is refused. -/

namespace WalletToolbox.Storage

open WalletToolbox.Lib
open WalletToolbox.Lib.Prog hiding pure exec

variable {s : Store} {E : Store → Prop} {userId : Nat}

/-! ## The batch -/

/-- The transactions of a user with a txid are on their way. -/
def Tables.sendOwn (d : Tables) (userId : Nat) (txid : String) : Tables :=
  { d with
    transactions := d.transactions.update (fun t => t.userId == userId && t.txid == some txid)
      (({ status := some .sending } : TransactionPartial).apply d.now) fun _ => rfl }

/-- What a batch does for one txid: a ready request is scheduled, and so are the user's rows. -/
def Tables.schedule (d : Tables) (userId : Nat) (batch : Option String) (txid : String) : Tables :=
  match d.provenTxReqs.first (·.txid == txid) with
  | none => d
  | some req =>
    if req.ready then
      (((Stmt.updateProvenTxReq req.provenTxReqId { status := some .unsent, batch }).apply
        d).2).sendOwn userId txid
    else d

/-- The batch id of a batch. -/
def batchId (random : String) (txids : List String) : Option String :=
  if txids.length > 1 then some random else none

/-- What a batch does. -/
def Tables.scheduleAll (d : Tables) (userId : Nat) (random : String) (txids : List String) : Tables :=
  txids.foldl (fun d txid => d.schedule userId (batchId random txids) txid) d

theorem wp_scheduleOne {batch : Option String} {txid : String} {Q : SendWithResult → Store → Prop}
    (h : ∀ r (s' : Store), s'.toTables = s.toTables.schedule userId batch txid → Q r s') :
    wp Stmt.exec (scheduleOne userId batch txid) Q E s := by
  unfold scheduleOne
  unfold Tables.schedule at h
  rw [wp_bind, wp_ask]
  cases hreq : s.provenTxReqs.first (·.txid == txid) with
  | none =>
    simp only [hreq] at h
    exact h _ s rfl
  | some req =>
    simp only [hreq] at h ⊢
    cases hready : req.ready with
    | false =>
      simp only [hready, Bool.false_eq_true, if_false] at h ⊢
      split
      · exact h _ s rfl
      · exact h _ s rfl
    | true =>
      simp only [hready, if_true, wp_bind] at h ⊢
      refine wp_exec'_plain (by exact rfl) fun s₁ h₁ => ?_
      rw [wp_ask]
      refine wp_forM_plain (fun _ _ => by exact rfl) fun s' hs' => h _ s' ?_
      have hids := foldl_updateTransaction s₁.toTables { status := some .sending }
        ((s₁.transactions.find fun t => t.userId == userId && t.txid == some txid).map
          (·.transactionId))
      rw [List.foldl_map] at hids
      rw [hs', hids, ← h₁]
      refine congrArg (fun t => { s₁.toTables with transactions := t })
        (Table.update_congr fun t ht => ?_)
      rw [show ((s₁.transactions.find fun t => t.userId == userId && t.txid == some txid).map
        (·.transactionId)).contains t.transactionId = (t.userId == userId && t.txid == some txid) from
          Table.contains_key_find ht]

/-- A batch is scheduled whatever it holds. -/
theorem wp_scheduleSendWith {random : String} {txids : List String}
    {Q : List SendWithResult → Store → Prop}
    (h : ∀ rs (s' : Store), s'.toTables = s.toTables.scheduleAll userId random txids → Q rs s') :
    wp Stmt.exec (scheduleSendWith userId random txids) Q E s := by
  unfold scheduleSendWith
  split
  · rename_i hempty
    rw [wp_pure]
    refine h [] s ?_
    rw [List.isEmpty_iff.mp hempty]
    rfl
  · rw [wp_atomically]
    have hloop : ∀ (xs : List String) (acc : List SendWithResult) (s₁ : Store),
        (∀ rs (s' : Store), s'.toTables =
          xs.foldl (fun d txid => d.schedule userId (batchId random txids) txid) s₁.toTables →
            Q rs s') →
        wp Stmt.exec (xs.foldlM (fun results txid => do
          let result ← scheduleOne userId (batchId random txids) txid
          pure (results ++ [result])) acc) Q (fun _ => E s) s₁ := by
      intro xs
      induction xs with
      | nil => exact fun acc s₁ h₁ => h₁ acc s₁ rfl
      | cons txid xs ih =>
        intro acc s₁ h₁
        rw [List.foldlM_cons, wp_bind, wp_bind]
        refine wp_scheduleOne fun r s₂ h₂ => ?_
        rw [wp_pure]
        exact ih _ s₂ fun rs s' hs' => h₁ rs s' (by rw [hs', h₂, List.foldl_cons])
    exact hloop txids [] s h

/-- A property of the tables that scheduling any txid keeps is kept by a batch. -/
theorem scheduleAll_inv {I : Tables → Prop} {random : String} {txids : List String} {d : Tables}
    (hstep : ∀ d batch txid, txid ∈ txids → I d → I (d.schedule userId batch txid)) (hd : I d) :
    I (d.scheduleAll userId random txids) := by
  unfold Tables.scheduleAll
  generalize batchId random txids = batch
  induction txids generalizing d with
  | nil => exact hd
  | cons txid txids ih =>
    exact ih (fun d batch x hx => hstep d batch x (by simp [hx])) (hstep d batch txid (by simp) hd)

/-- What scheduling a txid can do: nothing, or take up its one ready request and the user's rows. -/
theorem schedule_cases (d : Tables) (userId : Nat) (batch : Option String) (txid : String) :
    d.schedule userId batch txid = d ∨
      ∃ req, d.provenTxReqs.first (·.txid == txid) = some req ∧ req.ready = true ∧
        d.schedule userId batch txid =
          (((Stmt.updateProvenTxReq req.provenTxReqId { status := some .unsent, batch }).apply
            d).2).sendOwn userId txid := by
  unfold Tables.schedule
  cases hreq : d.provenTxReqs.first (·.txid == txid) with
  | none => exact .inl rfl
  | some req =>
    simp only
    cases hready : req.ready with
    | false => exact .inl rfl
    | true => exact .inr ⟨req, rfl, hready, rfl⟩

theorem mem_sendOwn {d : Tables} {txid : String} {t : Transaction} :
    t ∈ (d.sendOwn userId txid).transactions ↔ ∃ t₀ ∈ d.transactions, t =
      if t₀.userId == userId && t₀.txid == some txid
      then { t₀ with status := .sending, updatedAt := toSeconds d.now } else t₀ := by
  simp only [Tables.sendOwn]
  exact Table.mem_update

/-- What a batch does to a transaction row: nothing, or it is the user's and has a ready request. -/
def SentBy (d : Tables) (userId : Nat) (txids : List String) (t t' : Transaction) : Prop :=
  t' = t ∨ (t.userId = userId ∧
    (∃ txid ∈ txids, t.txid = some txid ∧ ∃ r ∈ d.provenTxReqs, r.txid = txid ∧ r.ready = true) ∧
    ∃ stamp, t' = { t with status := .sending, updatedAt := stamp })

/-- What a batch does to a request: nothing, or a ready one is scheduled. -/
def ScheduledAs (txids : List String) (r r' : ProvenTxReq) : Prop :=
  r' = r ∨ (r.ready = true ∧ r.txid ∈ txids ∧
    ∃ batch stamp, r' = { r with status := .unsent, batch, updatedAt := stamp })

/-- What becomes of the rows in a batch. -/
structure Scheduled (d : Tables) (userId : Nat) (txids : List String) (d' : Tables) : Prop where
  outputs : d'.outputs = d.outputs
  provenTxs : d'.provenTxs = d.provenTxs
  transactions : ∀ t' ∈ d'.transactions, ∃ t ∈ d.transactions, SentBy d userId txids t t'
  keptTransactions : ∀ t ∈ d.transactions, ∃ t' ∈ d'.transactions, SentBy d userId txids t t'
  provenTxReqs : ∀ r' ∈ d'.provenTxReqs, ∃ r ∈ d.provenTxReqs, ScheduledAs txids r r'
  keptProvenTxReqs : ∀ r ∈ d.provenTxReqs, ∃ r' ∈ d'.provenTxReqs, ScheduledAs txids r r'

theorem ScheduledAs.ready {txids : List String} {r r' : ProvenTxReq} (h : ScheduledAs txids r r') :
    r'.txid = r.txid ∧ r'.ready = r.ready := by
  rcases h with rfl | ⟨hready, -, batch, stamp, rfl⟩
  · exact ⟨rfl, rfl⟩
  · refine ⟨rfl, ?_⟩
    rw [hready]
    simp only [ProvenTxReq.ready, Bool.and_eq_true] at hready ⊢
    exact ⟨by simp, hready.2⟩

theorem Scheduled.schedule {d d₁ : Tables} {txids : List String} {batch : Option String}
    {txid : String} (h : Scheduled d userId txids d₁) (hmem : txid ∈ txids) :
    Scheduled d userId txids (d₁.schedule userId batch txid) := by
  rcases schedule_cases d₁ userId batch txid with hsame | ⟨req, hreq, hready, hsched⟩
  · rwa [hsame]
  · obtain ⟨hmemReq, htxid⟩ := Table.first_some hreq
    have htxid : req.txid = txid := by simpa using htxid
    have hsent : ∀ t t₁, SentBy d userId txids t t₁ → SentBy d userId txids t
        (if t₁.userId == userId && t₁.txid == some txid
          then { t₁ with status := .sending, updatedAt := toSeconds d₁.now } else t₁) := by
      intro t t₁ hst
      split
      · rename_i hsel
        obtain ⟨huser, hown⟩ : t₁.userId = userId ∧ t₁.txid = some txid := by simpa using hsel
        obtain ⟨r, hr, hfrom⟩ := h.provenTxReqs req hmemReq
        have hreadyAt : ∃ x ∈ txids, some txid = some x ∧
            ∃ r ∈ d.provenTxReqs, r.txid = x ∧ r.ready = true :=
          ⟨txid, hmem, rfl, r, hr, hfrom.ready.1.symm.trans htxid, hfrom.ready.2.symm.trans hready⟩
        rcases hst with rfl | ⟨-, -, stamp, rfl⟩
        · exact .inr ⟨huser, hown ▸ hreadyAt, _, rfl⟩
        · exact .inr ⟨huser, hown ▸ hreadyAt, _, rfl⟩
      · exact hst
    have hsame : ∀ r r₁, r₁ ∈ d₁.provenTxReqs → ScheduledAs txids r r₁ → ScheduledAs txids r
        (if r₁.provenTxReqId = req.provenTxReqId then
          ({ status := some .unsent, batch } : ProvenTxReqPartial).apply d₁.now r₁ else r₁) := by
      intro r r₁ hr₁ hfrom
      split
      · rename_i hid
        obtain rfl : r₁ = req := Table.eq_of_key_eq hr₁ hmemReq hid
        refine .inr ⟨hfrom.ready.2.symm.trans hready, ?_, batch.or r₁.batch, toSeconds d₁.now, ?_⟩
        · rw [← hfrom.ready.1, htxid]
          exact hmem
        · rcases hfrom with rfl | ⟨-, -, b, stamp, rfl⟩ <;> rfl
      · exact hfrom
    rw [hsched]
    refine ⟨h.outputs, h.provenTxs, fun t' ht' => ?_, fun t ht => ?_, fun r' hr' => ?_, fun r hr => ?_⟩
    · obtain ⟨t₁, h₁, rfl⟩ := mem_sendOwn.mp ht'
      obtain ⟨t, ht, hst⟩ := h.transactions t₁ h₁
      exact ⟨t, ht, hsent t t₁ hst⟩
    · obtain ⟨t₁, h₁, hst⟩ := h.keptTransactions t ht
      exact ⟨_, mem_sendOwn.mpr ⟨t₁, h₁, rfl⟩, hsent t t₁ hst⟩
    · obtain ⟨r₁, h₁, rfl⟩ := mem_updateProvenTxReq.mp hr'
      obtain ⟨r, hr, hfrom⟩ := h.provenTxReqs r₁ h₁
      exact ⟨r, hr, hsame r r₁ h₁ hfrom⟩
    · obtain ⟨r₁, h₁, hfrom⟩ := h.keptProvenTxReqs r hr
      exact ⟨_, mem_updateProvenTxReq.mpr ⟨r₁, h₁, rfl⟩, hsame r r₁ h₁ hfrom⟩

theorem scheduleAll_scheduled (d : Tables) (userId : Nat) (random : String) (txids : List String) :
    Scheduled d userId txids (d.scheduleAll userId random txids) :=
  scheduleAll_inv (fun _ _ _ hmem h => h.schedule hmem)
    ⟨rfl, rfl, fun t ht => ⟨t, ht, .inl rfl⟩, fun t ht => ⟨t, ht, .inl rfl⟩,
      fun r hr => ⟨r, hr, .inl rfl⟩, fun r hr => ⟨r, hr, .inl rfl⟩⟩

/-! ## The commit -/

/-- The request of a signed transaction. -/
def signedReq (now : Nat) (transaction : Transaction) (txid : String) (rawTx : Bytes)
    (status : ReqTxStatus) : ProvenTxReq :=
  { createdAt := now, updatedAt := now, provenTxId := none, status := status.req
    attempts := 0, notified := false, txid, batch := none, history := some (.arr [])
    notify := some (.obj [("transactionIds", .arr [.num transaction.transactionId])])
    rawTx, inputBeef := transaction.inputBeef }

/-- The user's outputs of a transaction that is signed. -/
def Tables.signOutputs (d : Tables) (userId id : Nat) (txid : String) : Tables :=
  { d with
    outputs := d.outputs.update (fun o => o.userId == userId && o.transactionId == id)
      (({ txid := some txid, spendable := some true } : OutputPartial).apply d.now) fun _ => rfl }

/-- What the commit of a signed transaction does. -/
def Tables.commitSigned (d : Tables) (userId : Nat) (transaction : Transaction) (txid : String)
    (rawTx : Bytes) (status : ReqTxStatus) : Tables :=
  (((Stmt.updateTransaction transaction.transactionId
    { txid := some txid, status := some status.tx, rawTx := some rawTx }).apply
      ((Stmt.insertProvenTxReq (signedReq d.now transaction txid rawTx status)).apply
        d).2).2).signOutputs userId transaction.transactionId txid

theorem mem_signOutputs {d : Tables} {id : Nat} {txid : String} {o : Output} :
    o ∈ (d.signOutputs userId id txid).outputs ↔ ∃ o₀ ∈ d.outputs, o =
      if o₀.userId == userId && o₀.transactionId == id
      then { o₀ with txid := some txid, spendable := true, spentBy := none, updatedAt := toSeconds d.now }
      else o₀ := by
  simp only [Tables.signOutputs]
  exact Table.mem_update

section Commit

variable {d : Tables} {transaction : Transaction} {txid : String} {rawTx : Bytes}
  {status : ReqTxStatus}

theorem mem_commitSigned_transactions {t : Transaction} :
    t ∈ (d.commitSigned userId transaction txid rawTx status).transactions ↔
      ∃ t₀ ∈ d.transactions, t = if t₀.transactionId = transaction.transactionId
        then { t₀ with txid := some txid, status := status.tx, rawTx := some rawTx
                       updatedAt := toSeconds d.now }
        else t₀ :=
  mem_updateTransaction

theorem mem_commitSigned_outputs {o : Output} :
    o ∈ (d.commitSigned userId transaction txid rawTx status).outputs ↔
      ∃ o₀ ∈ d.outputs, o =
        if o₀.userId == userId && o₀.transactionId == transaction.transactionId
        then { o₀ with txid := some txid, spendable := true, spentBy := none
                       updatedAt := toSeconds d.now }
        else o₀ :=
  mem_signOutputs

theorem mem_commitSigned_provenTxReqs {r : ProvenTxReq} :
    r ∈ (d.commitSigned userId transaction txid rawTx status).provenTxReqs ↔
      r ∈ d.provenTxReqs ∨ r = (signedReq d.now transaction txid rawTx status).stored
        (d.provenTxReqs.lastId + 1) :=
  mem_insertProvenTxReq

/-- A signed transaction is to be sent, or held back with its request. -/
theorem reqTxStatus_cases {args : StorageProcessActionArgs} (h : reqTxStatus args = .ok status) :
    (status.req = .nosend ∧ status.tx = .nosend) ∨
      ((status.req = .unsent ∨ status.req = .unprocessed) ∧ status.tx = .unprocessed) := by
  unfold reqTxStatus at h
  split at h
  · cases h
    exact .inl ⟨rfl, rfl⟩
  · split at h
    · cases h
      exact .inr ⟨.inl rfl, rfl⟩
    · split at h
      · cases h
        exact .inr ⟨.inr rfl, rfl⟩
      · cases h

end Commit

theorem wp_commitSigned {transaction : Transaction} {txid : String} {rawTx : Bytes}
    {status : ReqTxStatus} {Q : Unit → Store → Prop}
    (hok : (∀ q ∈ s.provenTxReqs, q.txid ≠ txid) → ∀ s' : Store,
      s'.toTables = s.toTables.commitSigned userId transaction txid rawTx status → Q () s')
    (herr : (∃ q ∈ s.provenTxReqs, q.txid = txid) → E s) :
    wp Stmt.exec (commitSigned userId transaction txid rawTx status) Q E s := by
  unfold commitSigned
  simp only [wp_bind, wp_utcNow]
  refine wp_exec' (fun n s₁ h₁ => ?_) fun e he => ?_
  · have hfresh := fresh_of_insertProvenTxReq h₁
    refine wp_exec'_plain (by exact rfl) fun s₂ h₂ => ?_
    rw [wp_ask]
    refine wp_forM_plain (fun _ _ => by exact ⟨rfl, .inl rfl⟩) fun s' hs' => hok hfresh s' ?_
    have hids := foldl_updateOutput s₂.toTables { txid := some txid, spendable := some true }
      ((s₂.outputs.find fun o => o.userId == userId &&
        o.transactionId == transaction.transactionId).map (·.outputId))
    rw [List.foldl_map] at hids
    rw [hs', hids]
    have h₁' : s₁.toTables = ((Stmt.insertProvenTxReq
        (signedReq s.now transaction txid rawTx status)).apply s.toTables).2 := (exec_eq h₁).2
    unfold Tables.commitSigned
    rw [← h₁', ← h₂]
    refine congrArg (fun t => { s₂.toTables with outputs := t }) (Table.update_congr fun o ho => ?_)
    rw [show ((s₂.outputs.find fun o => o.userId == userId &&
      o.transactionId == transaction.transactionId).map (·.outputId)).contains o.outputId =
        (o.userId == userId && o.transactionId == transaction.transactionId) from
          Table.contains_key_find ho]
  · by_contra hE
    have hfresh : ∀ q ∈ s.provenTxReqs, q.txid ≠ txid := fun q hq heq => hE (herr ⟨q, hq, heq⟩)
    obtain ⟨n, s', hs'⟩ := exec_insertProvenTxReq
      (r := signedReq s.now transaction txid rawTx status) rfl hfresh
    exact absurd (he.symm.trans hs') (by simp)

/-! ## The call -/

/-- What a call with a new transaction has found when it commits. -/
structure Processable (s : Store) (userId : Nat) (args : StorageProcessActionArgs)
    (transaction : Transaction) (txid : String) (rawTx : Bytes) (status : ReqTxStatus) : Prop where
  named : args.txid = some txid
  signed : args.rawTx = some rawTx
  row : ∃ reference, args.reference = some reference ∧ s.transactions.find (fun t =>
    t.userId == userId && t.reference == reference) = [transaction]
  outgoing : transaction.isOutgoing = true
  pending : transaction.status = .unsigned ∨ transaction.status = .unprocessed
  next : reqTxStatus args = .ok status

/-- The row that a call commits is a row of the caller. -/
theorem Processable.mem {args : StorageProcessActionArgs} {transaction : Transaction} {txid : String}
    {rawTx : Bytes} {status : ReqTxStatus}
    (h : Processable s userId args transaction txid rawTx status) :
    transaction ∈ s.transactions ∧ transaction.userId = userId ∧
      args.reference = some transaction.reference := by
  obtain ⟨reference, href, hrows⟩ := h.row
  have hmem : transaction ∈ s.transactions.find fun t =>
      t.userId == userId && t.reference == reference := by
    rw [hrows]
    exact List.mem_singleton.mpr rfl
  obtain ⟨ht, hsel⟩ := Table.mem_find.mp hmem
  simp only [Bool.and_eq_true, beq_iff_eq] at hsel
  exact ⟨ht, hsel.1, href.trans (congrArg some hsel.2.symm)⟩

/-- The txids that a call with a new transaction schedules after its commit. -/
def scheduled (args : StorageProcessActionArgs) (txid : String) : List String :=
  if args.sendWith.isEmpty then []
  else if args.isNoSend && !args.isSendWith then args.sendWith else args.sendWith ++ [txid]

theorem checkProcessable_ok {t : Transaction} :
    checkProcessable t = .ok () ↔
      t.isOutgoing = true ∧ (t.status = .unsigned ∨ t.status = .unprocessed) := by
  unfold checkProcessable
  cases t.isOutgoing <;> cases t.status <;> simp

theorem wp_sendBatch {args : StorageProcessActionArgs} {random txid : String}
    {Q : StorageProcessActionResult → Store → Prop}
    (h : ∀ r (s' : Store),
      s'.toTables = s.toTables.scheduleAll userId random (scheduled args txid) → Q r s') :
    wp Stmt.exec (sendBatch userId args random txid) Q E s := by
  unfold sendBatch
  unfold scheduled at h
  cases hempty : args.sendWith.isEmpty with
  | true =>
    simp only [hempty, if_true] at h ⊢
    exact h _ s rfl
  | false =>
    simp only [hempty, if_false, Bool.false_eq_true, wp_bind] at h ⊢
    exact wp_scheduleSendWith fun rs s' hs' => h _ s' hs'

/-- What a call does: the batch alone, or the commit and then the batch; a call that fails has no
effect. -/
theorem wp_storageProcessAction {args : StorageProcessActionArgs} {random : String}
    {Q : StorageProcessActionResult → Store → Prop}
    (hsend : args.isNewTx = false → ∀ r (s' : Store),
      s'.toTables = s.toTables.scheduleAll userId random args.sendWith → Q r s')
    (hnew : args.isNewTx = true → ∀ transaction txid rawTx status,
      Processable s userId args transaction txid rawTx status →
      (∀ q ∈ s.provenTxReqs, q.txid ≠ txid) → ∀ r (s' : Store),
      s'.toTables = (s.toTables.commitSigned userId transaction txid rawTx status).scheduleAll
        userId random (scheduled args txid) → Q r s')
    (herr : E s) :
    wp Stmt.exec (storageProcessAction userId args random) Q E s := by
  unfold storageProcessAction
  cases hisNew : args.isNewTx with
  | false =>
    simp only [Bool.not_false, if_true, wp_bind]
    exact wp_scheduleSendWith fun rs s' hs' => hsend hisNew _ s' hs'
  | true =>
    simp only [Bool.not_true, Bool.false_eq_true, if_false]
    unfold required
    cases href : args.reference with
    | none => exact herr
    | some reference =>
      cases htxid : args.txid with
      | none => exact herr
      | some txid =>
        cases hraw : args.rawTx with
        | none => exact herr
        | some rawTx =>
          simp only [wp_bind, wp_pure, wp_ask]
          unfold processRows
          simp only [wp_bind]
          refine wp_ofExcept (fun transaction hrow => ?_) fun _ _ => herr
          refine wp_ofExcept (fun _ hcheck => ?_) fun _ _ => herr
          refine wp_ofExcept (fun status hstatus => ?_) fun _ _ => herr
          obtain ⟨houtgoing, hrowStatus⟩ := checkProcessable_ok.mp hcheck
          have hfound : Processable s userId args transaction txid rawTx status :=
            ⟨htxid, hraw, ⟨reference, href, verifyOne_ok hrow⟩, houtgoing, hrowStatus, hstatus⟩
          rw [wp_atomically]
          refine wp_commitSigned (fun hfresh s₁ h₁ => ?_) fun _ => herr
          exact wp_sendBatch fun r s' hs' =>
            hnew hisNew transaction txid rawTx status hfound hfresh r s' (by rw [hs', h₁])

/-- What a call does for the user it is made for, on the tables with the user's row: a call that
fails leaves the core tables alone. -/
theorem wp_processAction_result {auth : String} {args : StorageProcessActionArgs} {random : String}
    {Q : StorageProcessActionResult → Store → Prop} (herr : ∀ s', SameCore s s' → E s')
    (hsend : args.isNewTx = false → ∀ userId (s₁ s' : Store) r, SameCore s s₁ →
      s'.toTables = s₁.toTables.scheduleAll userId random args.sendWith → Q r s')
    (hnew : args.isNewTx = true → ∀ userId s₁, SameCore s s₁ → ∀ transaction txid rawTx status,
      Processable s₁ userId args transaction txid rawTx status →
      (∀ q ∈ s.provenTxReqs, q.txid ≠ txid) → ∀ (s' : Store) r,
      s'.toTables = (s₁.toTables.commitSigned userId transaction txid rawTx status).scheduleAll
        userId random (scheduled args txid) → Q r s') :
    wp Stmt.exec (processAction auth args random) Q E s := by
  unfold processAction
  rw [wp_bind]
  have huser : (findOrInsertUser auth).Emits Stmt.OffCore :=
    emits_findOrInsertUser auth fun u => by simp [Stmt.OffCore, Stmt.target]
  refine wp_offCore huser (fun user s₁ hcore => ?_) herr
  obtain ⟨user, isNew⟩ := user
  refine wp_storageProcessAction (fun hnot r s' hs' => hsend hnot _ s₁ s' r hcore hs')
    (fun hn t txid rawTx status hp hfresh r s' hs' => ?_) (herr s₁ hcore)
  exact hnew hn user.userId s₁ hcore t txid rawTx status hp (hcore.provenTxReqs ▸ hfresh) s' r hs'

/-- What a call leaves, whether it fails or not. -/
theorem wp_processAction {auth : String} {args : StorageProcessActionArgs} {random : String}
    {Q : Store → Prop} (hsame : ∀ s', SameCore s s' → Q s')
    (hsend : args.isNewTx = false → ∀ userId (s₁ s' : Store), SameCore s s₁ →
      s'.toTables = s₁.toTables.scheduleAll userId random args.sendWith → Q s')
    (hnew : args.isNewTx = true → ∀ userId s₁, SameCore s s₁ → ∀ transaction txid rawTx status,
      Processable s₁ userId args transaction txid rawTx status →
      (∀ q ∈ s.provenTxReqs, q.txid ≠ txid) → ∀ s' : Store,
      s'.toTables = (s₁.toTables.commitSigned userId transaction txid rawTx status).scheduleAll
        userId random (scheduled args txid) → Q s') :
    wp Stmt.exec (processAction auth args random) (fun _ => Q) Q s :=
  wp_processAction_result hsame (fun hnot u s₁ s' _ hcore hs' => hsend hnot u s₁ s' hcore hs')
    fun hn u s₁ hcore t txid rawTx status hp hfresh s' _ hs' =>
      hnew hn u s₁ hcore t txid rawTx status hp hfresh s' hs'

end WalletToolbox.Storage
