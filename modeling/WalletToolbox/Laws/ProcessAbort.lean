import WalletToolbox.Laws.AbortAction
import WalletToolbox.Laws.ProcessAction
import WalletToolbox.Lib.Interleave
import WalletToolbox.Sample

/-! # processAction beside abortAction

Two processes share the database; one calls processAction and the other abortAction, for the same
user and the same reference.
An abort is one block. A processAction with a new transaction reads the row on one turn and commits
on a later one, and the commit looks at nothing that the abort wrote.
The two cannot both succeed, except when the abort runs between that read and that commit. -/

namespace WalletToolbox.Storage

open WalletToolbox.Lib
open WalletToolbox.Lib.Prog hiding pure exec

/-- A processAction call and an abortAction call for the same user and reference. -/
structure Rivals where
  user : User
  reference : Bytes
  args : StorageProcessActionArgs
  random : String
  stamp : String
  same : args.reference = some (base64Encode reference)

namespace Rivals

variable (sdk : Sdk) (c : Rivals) (schedule : List Bool) (s s' : Store)

def process : StorageProg StorageProcessActionResult :=
  storageProcessAction c.user.userId c.args c.random

def abort : StorageProg Unit :=
  abortAction sdk c.user.identityKey c.reference c.stamp

/-- Both calls return Ok under the schedule, and leave the store. -/
def BothOk : Prop :=
  ∃ r, interleave Stmt.exec schedule c.process (c.abort sdk) s = (Prog.pure r, Prog.pure (), s')

/-- The store is what one call and then the other leaves, both returning Ok. -/
def Serial : Prop :=
  (∃ r s₁, c.process.run Stmt.exec s = (.ok r, s₁) ∧
    (c.abort sdk).run Stmt.exec s₁ = (.ok (), s')) ∨
  ∃ r s₁, (c.abort sdk).run Stmt.exec s = (.ok (), s₁) ∧ c.process.run Stmt.exec s₁ = (.ok r, s')

/-- The transaction is in use without its inputs, or it failed and has an output in use. -/
def Torn : Prop :=
  ∃ t ∈ s'.transactions, t.userId = c.user.userId ∧ t.reference = base64Encode c.reference ∧
    ((t.status = .unprocessed ∨ t.status = .nosend) ∧
        (∃ o ∈ s.outputs, o.spentBy = some t.transactionId ∧
          ∃ o' ∈ s'.outputs, o'.outputId = o.outputId ∧ o'.spentBy = none) ∨
      t.status = .failed ∧ ∃ o ∈ s'.outputs, o.userId = c.user.userId ∧
        o.transactionId = t.transactionId ∧ o.spendable = true)

/-- When both calls return Ok, the store is that of a sequential order and nothing is torn. -/
def Serializable : Prop :=
  ∀ s', c.BothOk sdk schedule s s' → c.Serial sdk s s' ∧ ¬ c.Torn s s'

/-- The abort has its turn after the read of a processAction and before its commit, both pass
their checks, no request has the new txid, and there are turns enough to finish. -/
structure Race : Prop where
  isNewTx : c.args.isNewTx = true
  abortRuns : false ∈ schedule
  between : before schedule = 1
  finishes : (if c.args.sendWith.isEmpty then 1 else 2) ≤ after schedule
  checks : ∃ t txid rawTx status ids req,
    Processable s c.user.userId c.args t txid rawTx status ∧
      (∀ q ∈ s.provenTxReqs, q.txid ≠ txid) ∧
        Abortable sdk s c.user.identityKey c.reference c.stamp c.user t ids req

end Rivals

variable {sdk : Sdk} {c : Rivals} {schedule : List Bool} {s s' : Store}

/-! ## After the commit an abort fails -/

/-- The transaction of the reference has a request whose history is an array. -/
def Committed (c : Rivals) (d : Tables) : Prop :=
  c.user ∈ d.users ∧ ∃ t ∈ d.transactions, t.userId = c.user.userId ∧
    t.reference = base64Encode c.reference ∧ ∃ q ∈ d.provenTxReqs, t.txid = some q.txid ∧
      ∃ notes, q.history = some (.arr notes)

theorem abort_committed (h : Committed c s.toTables) :
    ¬ (c.abort sdk).run Stmt.exec s = (.ok (), s') := by
  obtain ⟨hu, t, ht, huser, href, q, hq, htxid, notes, hnotes⟩ := h
  exact abortAction_refused hu ht huser href hq htxid hnotes

/-- The commit of a signed transaction. -/
theorem committed_commitSigned (hu : c.user ∈ s.users) {t : Transaction} {txid : String}
    {rawTx : Bytes} {status : ReqTxStatus}
    (h : Processable s c.user.userId c.args t txid rawTx status) :
    Committed c (s.toTables.commitSigned c.user.userId t txid rawTx status) := by
  obtain ⟨ht, huser, href⟩ := h.mem
  rw [c.same, Option.some.injEq] at href
  exact ⟨hu, _, mem_updateTransaction.mpr ⟨t, ht, (if_pos rfl).symm⟩, huser, href.symm, _,
    mem_insertProvenTxReq.mpr (.inr rfl), rfl, [], rfl⟩

/-- A batch changes neither the references, the txids nor the histories. -/
theorem Committed.scheduleAll {d : Tables} (h : Committed c d) (userId : Nat) (random : String)
    (txids : List String) : Committed c (d.scheduleAll userId random txids) := by
  refine scheduleAll_inv (fun d batch txid _ hd => ?_) h
  rcases schedule_cases d userId batch txid with hsame | ⟨req, -, -, hsched⟩
  · rwa [hsame]
  · rw [hsched]
    obtain ⟨hu, t, ht, huser, href, q, hq, htxid, notes, hnotes⟩ := hd
    refine ⟨hu, _, mem_sendOwn.mpr ⟨t, ht, rfl⟩, ?_, ?_, _,
      mem_updateProvenTxReq.mpr ⟨q, hq, rfl⟩, ?_, notes, ?_⟩
    · split <;> exact huser
    · split <;> exact href
    · split <;> split <;> exact htxid
    · split <;> exact hnotes

/-! ## The turns of a processAction -/

theorem run_sendBatch (s : Store) (userId : Nat) (args : StorageProcessActionArgs)
    (random txid : String) :
    ∃ r s', (sendBatch userId args random txid).run Stmt.exec s = (.ok r, s') ∧
      s'.toTables = s.toTables.scheduleAll userId random (scheduled args txid) :=
  wp_total (wp_sendBatch fun _ _ hs' => hs')

/-- The batch after the commit is over on its first turn. -/
theorem length_sendBatch {userId : Nat} {args : StorageProcessActionArgs} {random txid : String} :
    (sendBatch userId args random txid).length Stmt.exec s =
      if args.sendWith.isEmpty then 0 else 1 := by
  unfold sendBatch scheduleSendWith
  cases hempty : args.sendWith.isEmpty with
  | true => simp only [if_true]; rfl
  | false =>
    have hbatch : (if args.isNoSend && !args.isSendWith then args.sendWith
        else args.sendWith ++ [txid]).isEmpty = false := by
      split <;> simp [hempty]
    simp only [Bool.false_eq_true, if_false, hbatch]
    show Prog.length Stmt.exec (Prog.block _ _) s = 1
    simp only [Prog.length]
    split <;> rfl

theorem processRows_commit {userId : Nat} {args : StorageProcessActionArgs} {random txid : String}
    {rawTx : Bytes} {t : Transaction} {status : ReqTxStatus} (hcheck : checkProcessable t = .ok ())
    (hstatus : reqTxStatus args = .ok status) :
    processRows userId args random txid rawTx [t] =
      Prog.block (commitSigned userId t txid rawTx status) fun r =>
        Prog.ofExcept r >>= fun _ => sendBatch userId args random txid := by
  show (Prog.ofExcept (checkProcessable t) >>= fun _ => _) = _
  rw [hcheck]
  show (Prog.ofExcept (reqTxStatus args) >>= fun _ => _) = _
  rw [hstatus]
  rfl

/-- What a call with a new transaction does after its read: it fails, or it commits and sends the
batch. -/
theorem processRows_cases (userId : Nat) (args : StorageProcessActionArgs) (random txid : String)
    (rawTx : Bytes) (rows : List Transaction) :
    (∃ e, processRows userId args random txid rawTx rows = Prog.fail e) ∨
      ∃ t status, rows = [t] ∧ checkProcessable t = .ok () ∧ reqTxStatus args = .ok status ∧
        processRows userId args random txid rawTx rows =
          Prog.block (commitSigned userId t txid rawTx status) fun r =>
            Prog.ofExcept r >>= fun _ => sendBatch userId args random txid := by
  cases hrow : verifyOne rows with
  | error e =>
    refine .inl ⟨e, ?_⟩
    unfold processRows
    rw [hrow]
    rfl
  | ok t =>
    have hrows := verifyOne_ok hrow
    subst hrows
    cases hcheck : checkProcessable t with
    | error e =>
      refine .inl ⟨e, ?_⟩
      show (Prog.ofExcept (checkProcessable t) >>= fun _ => _) = _
      rw [hcheck]
      rfl
    | ok u =>
      cases hstatus : reqTxStatus args with
      | error e =>
        refine .inl ⟨e, ?_⟩
        show (Prog.ofExcept (checkProcessable t) >>= fun _ => _) = _
        rw [hcheck]
        show (Prog.ofExcept (reqTxStatus args) >>= fun _ => _) = _
        rw [hstatus]
        rfl
      | ok status => exact .inr ⟨t, status, rfl, hcheck, rfl, processRows_commit hcheck hstatus⟩

/-- A call with a new transaction lacks an argument and fails, or reads the rows of its reference. -/
theorem process_cases (hnew : c.args.isNewTx = true) :
    (∃ e, c.process = Prog.fail e) ∨
      ∃ txid rawTx, c.args.txid = some txid ∧ c.args.rawTx = some rawTx ∧
        c.process = Prog.read fun s => processRows c.user.userId c.args c.random txid rawTx
          (s.transactions.find fun t =>
            t.userId == c.user.userId && t.reference == base64Encode c.reference) := by
  unfold Rivals.process storageProcessAction required
  simp only [hnew, c.same, Bool.not_true, Bool.false_eq_true, if_false]
  cases htxid : c.args.txid with
  | none => exact .inl ⟨_, rfl⟩
  | some txid =>
    cases hraw : c.args.rawTx with
    | none => exact .inl ⟨_, rfl⟩
    | some rawTx => exact .inr ⟨txid, rawTx, rfl, rfl, rfl⟩

/-- What the rows of the reference tell when the checks pass. -/
theorem processable_of_rows {t : Transaction} {txid : String} {rawTx : Bytes} {status : ReqTxStatus}
    (htxid : c.args.txid = some txid) (hraw : c.args.rawTx = some rawTx)
    (hrows : (s.transactions.find fun t =>
      t.userId == c.user.userId && t.reference == base64Encode c.reference) = [t])
    (hcheck : checkProcessable t = .ok ()) (hstatus : reqTxStatus c.args = .ok status) :
    Processable s c.user.userId c.args t txid rawTx status := by
  obtain ⟨houtgoing, hpending⟩ := checkProcessable_ok.mp hcheck
  exact ⟨htxid, hraw, ⟨_, c.same, hrows⟩, houtgoing, hpending, hstatus⟩

/-- After its second turn a call with a new transaction has failed or has committed. -/
theorem turns_process (hu : c.user ∈ s.users) (hnew : c.args.isNewTx = true) (n : Nat) :
    (∃ e, (c.process.turns Stmt.exec (n + 2) s).1 = Prog.fail e) ∨
      Committed c (c.process.turns Stmt.exec (n + 2) s).2.toTables := by
  rcases process_cases hnew with ⟨e, hfail⟩ | ⟨txid, rawTx, htxid, hraw, hread⟩
  · exact .inl ⟨e, by rw [hfail, turns_fail]⟩
  · rw [hread, turns_read]
    rcases processRows_cases c.user.userId c.args c.random txid rawTx (s.transactions.find fun t =>
      t.userId == c.user.userId && t.reference == base64Encode c.reference) with
      ⟨e, hfail⟩ | ⟨t, status, hrows, hcheck, hstatus, hblock⟩
    · exact .inl ⟨e, by rw [hfail, turns_fail]⟩
    · rw [hblock]
      rcases hrun : (commitSigned c.user.userId t txid rawTx status).run Stmt.exec s with
        ⟨e | u, s₁⟩
      · exact .inl ⟨e, by rw [turns_block_error hrun]; exact congrArg Prod.fst (turns_fail n e s)⟩
      · refine .inr ?_
        rw [turns_block_ok hrun]
        show Committed c ((sendBatch c.user.userId c.args c.random txid).turns Stmt.exec n s₁).2.toTables
        have hcommit : Committed c s₁.toTables := by
          have hw := wp_ok (wp_commitSigned (E := fun _ => True)
            (Q := fun (_ : Unit) (s' : Store) => s'.toTables =
              s.toTables.commitSigned c.user.userId t txid rawTx status)
            (fun _ s' hs' => hs') fun _ => trivial) hrun
          rw [hw]
          exact committed_commitSigned hu (processable_of_rows htxid hraw hrows hcheck hstatus)
        cases n with
        | zero => exact hcommit
        | succ n =>
          obtain ⟨r, s₂, hbatch, hs₂⟩ := run_sendBatch s₁ c.user.userId c.args c.random txid
          have hlength : (sendBatch c.user.userId c.args c.random txid).length Stmt.exec s₁ ≤
              n + 1 := by
            rw [length_sendBatch]
            split <;> omega
          rw [turns_eq_pure.mpr ⟨hbatch, hlength⟩, hs₂]
          exact hcommit.scheduleAll _ _ _

/-! ## After an abort the transaction is given up -/

/-- The transaction of the reference failed, none of its outputs is in use and its request is
invalid. -/
def GivenUp (c : Rivals) (d : Tables) : Prop :=
  ∀ t ∈ d.transactions, t.userId = c.user.userId → t.reference = base64Encode c.reference →
    t.status = .failed ∧
      (∀ o ∈ d.outputs, o.userId = c.user.userId → o.transactionId = t.transactionId →
        o.spendable = false) ∧
      ∀ q ∈ d.provenTxReqs, t.txid = some q.txid → q.status = .invalid

theorem givenUp_abort {t : Transaction} {ids : List Nat} {req : Option (ProvenTxReq × Json)}
    (h : Abortable sdk s c.user.identityKey c.reference c.stamp c.user t ids req) :
    GivenUp c (abortEffect s.toTables c.user.userId t.transactionId ids req) := by
  intro t' ht' huser href
  obtain ⟨t₀, h₀, rfl⟩ := abortEffect_transactions.mp ht'
  obtain rfl : t = t₀ := by
    refine h.target_eq h₀ ?_ ?_
    · split at huser <;> exact huser
    · split at href <;> exact href
  rw [if_pos rfl]
  refine ⟨rfl, fun o ho hown hid => ?_, fun q hq htxid => ?_⟩
  · rw [abortEffect_outputs] at ho
    obtain ⟨o₀, -, rfl⟩ := mem_retireOwn.mp ho
    split at hown
    · rename_i hsel
      rw [if_pos hsel]
      rfl
    · rename_i hsel
      rw [if_neg hsel] at hid ⊢
      simp only [retirable, hown, hid, beq_self_eq_true, Bool.true_and, Bool.not_eq_true,
        Bool.or_eq_false_iff] at hsel
      exact hsel.1
  · rw [abortEffect_provenTxReqs] at hq
    obtain ⟨q₀, hq₀, rfl⟩ := mem_invalidate.mp hq
    have hreq := h.request
    have htxid₀ : t.txid = some q₀.txid := by
      rw [show t.txid = _ from htxid, invalidated_txid]
    simp only [abortedRequest, htxid₀, Option.bind_some, firstReq_eq hq₀] at hreq
    cases hhistory : abortHistory q₀ ((txidFallback c.reference).getD (base64Encode c.reference))
      c.stamp with
    | error e =>
      rw [hhistory] at hreq
      cases hreq
    | ok history =>
      rw [hhistory] at hreq
      cases hreq
      simp only [invalidated, if_true]

/-- A batch takes up no request that an abort invalidated. -/
theorem GivenUp.scheduleAll {d : Tables} (h : GivenUp c d) (userId : Nat) (random : String)
    (txids : List String) : GivenUp c (d.scheduleAll userId random txids) := by
  refine scheduleAll_inv (fun d batch txid _ hd => ?_) h
  rcases schedule_cases d userId batch txid with hsame | ⟨req, hfirst, hready, hsched⟩
  · rwa [hsame]
  · rw [hsched]
    obtain ⟨hreq, hreqTxid⟩ := Table.first_some hfirst
    have hreqTxid : req.txid = txid := by simpa using hreqTxid
    have hlive : req.status ≠ .invalid := by
      intro hinvalid
      simp [ProvenTxReq.ready, hinvalid] at hready
    intro t ht huser href
    obtain ⟨t₀, h₀, rfl⟩ := mem_sendOwn.mp ht
    have hold := hd t₀ h₀ (by split at huser <;> exact huser) (by split at href <;> exact href)
    have hother : t₀.txid ≠ some req.txid := fun heq => hlive (hold.2.2 req hreq heq)
    have hkeep : (t₀.userId == userId && t₀.txid == some txid) = false := by
      rw [← hreqTxid]
      simp [hother]
    rw [hkeep]
    simp only [Bool.false_eq_true, if_false]
    refine ⟨hold.1, hold.2.1, fun q hq htxid => ?_⟩
    obtain ⟨q₀, hq₀, rfl⟩ := mem_updateProvenTxReq.mp hq
    by_cases hid : q₀.provenTxReqId = req.provenTxReqId
    · have hsame : q₀ = req := Table.eq_of_key_eq hq₀ hreq hid
      rw [if_pos hid] at htxid
      exact absurd htxid (by rw [hsame]; exact hother)
    · rw [if_neg hid] at htxid ⊢
      exact hold.2.2 q₀ hq₀ htxid

theorem GivenUp.not_torn (h : GivenUp c s'.toTables) : ¬ c.Torn s s' := by
  rintro ⟨t, ht, huser, href, hcase⟩
  obtain ⟨hfailed, hretired, -⟩ := h t ht huser href
  rcases hcase with ⟨hstatus, -⟩ | ⟨-, o, ho, hown, hid, hspendable⟩
  · rw [hfailed] at hstatus
    rcases hstatus with hstatus | hstatus <;> cases hstatus
  · rw [hretired o ho hown hid] at hspendable
    cases hspendable

/-- An abort that returns Ok gives the transaction up. -/
theorem abort_ok (hu : c.user ∈ s.users) (hrun : (c.abort sdk).run Stmt.exec s = (.ok (), s')) :
    ∃ t ids req, Abortable sdk s c.user.identityKey c.reference c.stamp c.user t ids req ∧
      s'.toTables = abortEffect s.toTables c.user.userId t.transactionId ids req :=
  abortAction_ok hu hrun

/-- An abort that passes its checks returns Ok. -/
theorem run_abort (hu : c.user ∈ s.users) {t : Transaction} {ids : List Nat}
    {req : Option (ProvenTxReq × Json)}
    (h : Abortable sdk s c.user.identityKey c.reference c.stamp c.user t ids req) :
    ∃ s', (c.abort sdk).run Stmt.exec s = (.ok (), s') ∧
      s'.toTables = abortEffect s.toTables c.user.userId t.transactionId ids req :=
  run_abortAction hu h

/-- After an abort a processAction with a new transaction fails: the row it finds failed. -/
theorem process_givenUp (hnew : c.args.isNewTx = true) (h : GivenUp c s.toTables)
    {r : StorageProcessActionResult} : ¬ c.process.run Stmt.exec s = (.ok r, s') := by
  intro hrun
  refine wp_ok (Q := fun _ _ => False) (E := fun _ => True)
    (wp_storageProcessAction (fun hsend => ?_) (fun _ t txid rawTx status hp _ _ _ _ => ?_) trivial)
    hrun
  · rw [hnew] at hsend
    cases hsend
  · obtain ⟨ht, huser, href⟩ := hp.mem
    rw [c.same, Option.some.injEq] at href
    have hfailed := (h t ht huser href.symm).1
    have hpending := hp.pending
    rw [hfailed] at hpending
    rcases hpending with hpending | hpending <;> cases hpending

/-! ## The two calls together -/

/-- The abort runs as a whole between two turns of the processAction. -/
theorem bothOk_iff : c.BothOk sdk schedule s s' ↔ false ∈ schedule ∧ ∃ r s₂,
    (c.abort sdk).run Stmt.exec (c.process.turns Stmt.exec (before schedule) s).2 = (.ok (), s₂) ∧
      (c.process.turns Stmt.exec (before schedule) s).1.turns Stmt.exec (after schedule) s₂ =
        (Prog.pure r, s') := by
  unfold Rivals.BothOk Rivals.abort abortAction
  simp only [interleave_atomically, run_atomically_ok, exists_and_left]

/-- An abort changes no txid of a request. -/
theorem fresh_abortEffect {userId id : Nat} {ids : List Nat} {req : Option (ProvenTxReq × Json)}
    {d : Tables} {txid : String} :
    (∀ q ∈ (abortEffect d userId id ids req).provenTxReqs, q.txid ≠ txid) ↔
      ∀ q ∈ d.provenTxReqs, q.txid ≠ txid := by
  rw [abortEffect_provenTxReqs]
  constructor
  · intro h q hq
    rw [← invalidated_txid]
    exact h _ (mem_invalidate.mpr ⟨q, hq, rfl⟩)
  · intro h q hq
    obtain ⟨q₀, hq₀, rfl⟩ := mem_invalidate.mp hq
    rw [invalidated_txid]
    exact h q₀ hq₀

/-- Once it has read its row, a processAction commits unless a request has the txid. -/
theorem run_processRows {userId : Nat} {args : StorageProcessActionArgs} {random txid : String}
    {rawTx : Bytes} {t : Transaction} {status : ReqTxStatus} (hcheck : checkProcessable t = .ok ())
    (hstatus : reqTxStatus args = .ok status) {n : Nat} :
    (∃ r s', (processRows userId args random txid rawTx [t]).turns Stmt.exec n s = (Prog.pure r, s')) ↔
      (∀ q ∈ s.provenTxReqs, q.txid ≠ txid) ∧ (if args.sendWith.isEmpty then 1 else 2) ≤ n := by
  rw [processRows_commit hcheck hstatus]
  simp only [turns_eq_pure, Prog.run, Prog.length]
  have hcommit : wp Stmt.exec (commitSigned userId t txid rawTx status)
      (fun _ _ => ∀ q ∈ s.provenTxReqs, q.txid ≠ txid)
      (fun _ => ∃ q ∈ s.provenTxReqs, q.txid = txid) s :=
    wp_commitSigned (fun hfresh _ _ => hfresh) fun h => h
  rcases hrun : (commitSigned userId t txid rawTx status).run Stmt.exec s with ⟨e | u, s₁⟩
  · simp only [wp, hrun] at hcommit
    obtain ⟨q, hq, heq⟩ := hcommit
    refine iff_of_false ?_ fun h => h.1 q hq heq
    rintro ⟨r, s', h, -⟩
    cases h
  · have hfresh := wp_ok hcommit hrun
    have hlength : (Prog.ofExcept (.ok u) >>= fun _ => sendBatch userId args random txid :
        StorageProg _).length Stmt.exec s₁ = if args.sendWith.isEmpty then 0 else 1 :=
      length_sendBatch
    simp only [hlength]
    constructor
    · rintro ⟨r, s', -, hn⟩
      refine ⟨hfresh, ?_⟩
      split at hn <;> simp_all
    · rintro ⟨-, hn⟩
      obtain ⟨r, s₂, hbatch, -⟩ := run_sendBatch s₁ userId args random txid
      refine ⟨r, s₂, hbatch, ?_⟩
      split at hn <;> simp_all

/-- Both calls with a new transaction return Ok exactly in a race. -/
theorem bothOk_iff_race (hu : c.user ∈ s.users) (hnew : c.args.isNewTx = true) :
    (∃ s', c.BothOk sdk schedule s s') ↔ c.Race sdk schedule s := by
  simp only [bothOk_iff]
  constructor
  · rintro ⟨s', hturn, r, s₂, habort, hprocess⟩
    match hbefore : before schedule with
    | 0 =>
      -- The abort came first, and the row that processAction reads failed.
      rw [hbefore] at habort hprocess
      obtain ⟨t, ids, req, h, hs₂⟩ := abort_ok hu habort
      refine absurd (turns_eq_pure.mp hprocess).1 (process_givenUp hnew ?_)
      rw [hs₂]
      exact givenUp_abort h
    | 1 =>
      rw [hbefore] at habort hprocess
      rcases process_cases hnew with ⟨e, hfail⟩ | ⟨txid, rawTx, htxid, hraw, hread⟩
      · rw [hfail, turns_fail, turns_fail] at hprocess
        cases hprocess
      · have hone : c.process.turns Stmt.exec 1 s = (processRows c.user.userId c.args c.random
            txid rawTx (s.transactions.find fun t => t.userId == c.user.userId &&
              t.reference == base64Encode c.reference), s) := by
          rw [hread]
          rfl
        rw [hone] at habort hprocess
        obtain ⟨t, ids, req, h, hs₂⟩ := abort_ok hu habort
        rcases processRows_cases c.user.userId c.args c.random txid rawTx
          (s.transactions.find fun t => t.userId == c.user.userId &&
            t.reference == base64Encode c.reference) with
          ⟨e, hfail⟩ | ⟨t', status, hrows, hcheck, hstatus, -⟩
        · rw [hfail, turns_fail] at hprocess
          cases hprocess
        · have hp := processable_of_rows htxid hraw hrows hcheck hstatus
          obtain ⟨ht', huser, href⟩ := hp.mem
          rw [c.same, Option.some.injEq] at href
          obtain rfl : t = t' := h.target_eq ht' huser href.symm
          rw [hrows] at hprocess
          obtain ⟨hfresh, hfinishes⟩ := (run_processRows hcheck hstatus).mp ⟨r, s', hprocess⟩
          rw [hs₂] at hfresh
          exact ⟨hnew, hturn, hbefore, hfinishes,
            t, txid, rawTx, status, ids, req, hp, fresh_abortEffect.mp hfresh, h⟩
    | n + 2 =>
      -- The abort came after the commit, or processAction had failed.
      rw [hbefore] at habort hprocess
      rcases turns_process hu hnew n with ⟨e, hfail⟩ | hcommitted
      · rw [hfail, turns_fail] at hprocess
        cases hprocess
      · exact absurd habort (abort_committed hcommitted)
  · rintro ⟨-, hturn, hbetween, hfinishes, t, txid, rawTx, status, ids, req, hp, hfresh, h⟩
    obtain ⟨s₂, habort, hs₂⟩ := run_abort hu h
    obtain ⟨reference, href, hrows⟩ := hp.row
    rw [c.same, Option.some.injEq] at href
    subst href
    have hcheck := checkProcessable_ok.mpr ⟨hp.outgoing, hp.pending⟩
    have hfresh₂ : ∀ q ∈ s₂.provenTxReqs, q.txid ≠ txid := by
      rw [hs₂]
      exact fresh_abortEffect.mpr hfresh
    obtain ⟨r, s', hprocess⟩ : ∃ r s', (processRows c.user.userId c.args c.random txid rawTx
        [t]).turns Stmt.exec (after schedule) s₂ = (Prog.pure r, s') :=
      (run_processRows hcheck hp.next).mpr ⟨hfresh₂, hfinishes⟩
    have hread : c.process.turns Stmt.exec 1 s =
        (processRows c.user.userId c.args c.random txid rawTx [t], s) := by
      rw [← hrows]
      unfold Rivals.process storageProcessAction required
      simp only [hnew, c.same, hp.named, hp.signed, Bool.not_true, Bool.false_eq_true, if_false]
      rfl
    rw [hbetween, hread]
    exact ⟨s', hturn, r, s₂, habort, hprocess⟩

/-- In sequence, a processAction with a new transaction and an abort never both return Ok. -/
theorem not_serial (hu : c.user ∈ s.users) (hnew : c.args.isNewTx = true) :
    ¬ c.Serial sdk s s' := by
  rintro (⟨r, s₁, hprocess, habort⟩ | ⟨r, s₁, habort, hprocess⟩)
  · refine abort_committed ?_ habort
    refine wp_ok (Q := fun _ s' => Committed c s'.toTables) (E := fun _ => True)
      (wp_storageProcessAction (fun hsend => ?_)
        (fun _ t txid rawTx status hp _ _ s' hs' => ?_) trivial) hprocess
    · rw [hnew] at hsend
      cases hsend
    · rw [hs']
      exact (committed_commitSigned hu hp).scheduleAll _ _ _
  · obtain ⟨t, ids, req, h, hs₁⟩ := abort_ok hu habort
    refine process_givenUp hnew ?_ hprocess
    rw [hs₁]
    exact givenUp_abort h

/-- A batch beside an abort is one block beside another. -/
theorem serializable_batch (hu : c.user ∈ s.users) (hsend : c.args.isNewTx = false) :
    c.Serializable sdk schedule s := by
  have hprocess : ∀ s₁ : Store, ∃ r s₂, c.process.run Stmt.exec s₁ = (.ok r, s₂) ∧
      s₂.toTables = s₁.toTables.scheduleAll c.user.userId c.random c.args.sendWith ∧
        c.process.length Stmt.exec s₁ ≤ 1 := by
    intro s₁
    have hprog : c.process = scheduleSendWith c.user.userId c.random c.args.sendWith >>= fun results =>
        pure { sendWithResults := some results } := by
      unfold Rivals.process storageProcessAction
      simp only [hsend, Bool.not_false, if_true]
    obtain ⟨rs, s₂, hrun, hs₂⟩ := wp_total (wp_scheduleSendWith (s := s₁) (Q := fun _ s' =>
      s'.toTables = s₁.toTables.scheduleAll c.user.userId c.random c.args.sendWith)
        fun _ _ hs' => hs')
    refine ⟨_, s₂, by rw [hprog, run_bind_of_ok hrun]; rfl, hs₂, ?_⟩
    rw [hprog]
    unfold scheduleSendWith
    split
    · exact Nat.zero_le 1
    · show Prog.length Stmt.exec (Prog.block _ _) s₁ ≤ 1
      simp only [Prog.length]
      split <;> exact Nat.le_refl 1
  intro s' hboth
  obtain ⟨-, r, s₂, habort, hrest⟩ := bothOk_iff.mp hboth
  cases hbefore : before schedule with
  | zero =>
    rw [hbefore] at habort hrest
    have hrun := (turns_eq_pure.mp hrest).1
    obtain ⟨t, ids, req, h, hs₂⟩ := abort_ok hu habort
    refine ⟨.inr ⟨r, s₂, habort, hrun⟩, GivenUp.not_torn ?_⟩
    obtain ⟨r', s₃, hrun', hs₃, -⟩ := hprocess s₂
    obtain rfl : s₃ = s' := congrArg Prod.snd (hrun'.symm.trans hrun)
    rw [hs₃, hs₂]
    exact (givenUp_abort h).scheduleAll _ _ _
  | succ n =>
    rw [hbefore] at habort hrest
    obtain ⟨r₁, s₁, hrun, hs₁, hlength⟩ := hprocess s
    rw [turns_eq_pure.mpr ⟨hrun, Nat.le_trans hlength (by omega)⟩] at habort hrest
    rw [turns_pure] at hrest
    obtain rfl : s₂ = s' := congrArg Prod.snd hrest
    refine ⟨.inl ⟨r₁, s₁, hrun, habort⟩, GivenUp.not_torn ?_⟩
    have hu₁ : c.user ∈ s₁.users := by
      rw [hs₁]
      exact scheduleAll_inv (I := fun d => c.user ∈ d.users) (fun d batch txid _ hd => by
        rcases schedule_cases d c.user.userId batch txid with hsame | ⟨_, -, -, hsched⟩
        · rwa [hsame]
        · rw [hsched]
          exact hd) hu
    obtain ⟨t, ids, req, h, hs₂⟩ := abort_ok hu₁ habort
    rw [hs₂]
    exact givenUp_abort h

/-- The two calls are serializable exactly when they do not race. -/
theorem process_abort_serializable (hu : c.user ∈ s.users) :
    c.Serializable sdk schedule s ↔ ¬ c.Race sdk schedule s := by
  cases hnew : c.args.isNewTx with
  | false =>
    refine iff_of_true (serializable_batch hu hnew) fun hrace => ?_
    rw [hrace.isNewTx] at hnew
    cases hnew
  | true =>
    rw [← bothOk_iff_race hu hnew]
    refine ⟨fun h ⟨s', hs'⟩ => not_serial hu hnew (h s' hs').1, fun h s' hs' => ?_⟩
    exact absurd ⟨s', hs'⟩ h

/-! ## A signed payment and an abort -/

/-- An output of the payer. -/
def payerOutput (transactionId vout : Nat) (satoshis : Int) (txid : Option String)
    (spentBy : Option Nat) : Output :=
  { userId := 1, transactionId, basketId := none, spendable := false, change := true
    outputDescription := none, vout, satoshis, providedBy := .storage, purpose := "change"
    outputType := "P2PKH", txid, senderIdentityKey := none, derivationPrefix := none
    derivationSuffix := none, customInstructions := none, spentBy, sequenceNumber := none
    spendingDescription := none, scriptLength := none, scriptOffset := none, lockingScript := none }

/-- A payer with a payment that waits for its signature and claims the funding. -/
def unsignedStore : Store :=
  (Prog.run Stmt.exec (do
    let payer ← exec (.insertUser { identityKey := Sample.alice, activeStorage := "" })
    let funding ← exec (.insertTransaction
      { userId := payer, provenTxId := none, status := .unproven, reference := "ZnVuZGluZzAwMDE="
        isOutgoing := false, satoshis := 1000, description := "funding", version := some 1
        lockTime := some 0, txid := some Sample.fundingTxid, inputBeef := none
        rawTx := some Sample.fundingRaw })
    let payment ← exec (.insertTransaction
      { userId := payer, provenTxId := none, status := .unsigned, reference := "YWN0aW9uMDAwMQ=="
        isOutgoing := true, satoshis := -523, description := "payment", version := some 1
        lockTime := some 0, txid := none, inputBeef := none, rawTx := none })
    exec' (.insertOutput (payerOutput funding 0 1000 (some Sample.fundingTxid) (some payment)))
    exec' (.insertOutput (payerOutput payment 1 477 none none))) Store.empty).2

/-- The payer signs the payment in one process and aborts it in another. -/
def signAndAbort : Rivals where
  user := { userId := 1, identityKey := Sample.alice, activeStorage := "" }
  reference := [97, 99, 116, 105, 111, 110, 48, 48, 48, 49]
  args :=
    { isNewTx := true, isSendWith := false, isNoSend := false, isDelayed := true
      reference := some "YWN0aW9uMDAwMQ==", txid := some Sample.paymentTxid
      rawTx := some Sample.paymentRaw, sendWith := [] }
  random := ""
  stamp := "2024-01-01T00:00:00.000Z"
  same := by decide +kernel

/-- Both calls return Ok, and the payment is in use without the funding it spends. -/
theorem process_abort_torn :
    ∃ s', signAndAbort.BothOk Sample.sdk [true, false, true] unsignedStore s' ∧
      signAndAbort.Torn unsignedStore s' := by
  refine ⟨(interleave Stmt.exec [true, false, true] signAndAbort.process
    (signAndAbort.abort Sample.sdk) unsignedStore).2.2, ⟨{}, ?_⟩, ?_⟩
  · rfl
  · unfold Rivals.Torn
    decide +kernel

/-- When the abort comes after the commit, the two are serializable. -/
theorem process_abort_serializable_late :
    (∃ u ∈ unsignedStore.users, u.identityKey = Sample.alice) ∧
      signAndAbort.Serializable Sample.sdk [true, true, false] unsignedStore := by
  refine ⟨by decide +kernel, (process_abort_serializable ?_).mpr fun hrace => ?_⟩
  · exact List.mem_singleton.mpr rfl
  · exact absurd hrace.between (by decide)

end WalletToolbox.Storage
