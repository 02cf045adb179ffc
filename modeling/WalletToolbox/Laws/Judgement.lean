import WalletToolbox.Laws.Outcomes
import WalletToolbox.Sample

/-! # Two judges of one broadcast

The signer classifies the providers' answers when a transaction is sent, the monitor when it is
sent again.
Both look at which kinds of answer occur and go through the kinds in an order of their own.
`Answer` names the kinds, so that either order is one chain of conditions and the two can be
compared. -/

namespace WalletToolbox

open WalletToolbox.Lib WalletToolbox.Storage WalletToolbox.Signer WalletToolbox.Monitor
open WalletToolbox.Lib.Prog hiding pure exec

/-- What an answer says about its transaction. -/
inductive Answer where
  | success | doubleSpend | orphan | invalid | serviceError
deriving DecidableEq

def PostTxResultForTxid.answer (r : PostTxResultForTxid) : Answer :=
  if r.status == "success" then .success
  else if r.doubleSpend == some true then .doubleSpend
  else if r.orphanMempool == some true then .orphan
  else if r.serviceError == some true then .serviceError
  else .invalid

/-- Whether some provider gives an answer of a kind. -/
def reports (results : List PostBeefResult) (a : Answer) : Bool :=
  results.any fun p => p.txidResults.any fun r => r.answer == a

/-- Whether some provider reports success for the whole post. -/
def accepts (results : List PostBeefResult) : Bool :=
  results.any fun p => p.status == "success"

/-- The outcome in the monitor's words. -/
def Signer.BroadcastOutcome.verdict : BroadcastOutcome → PostReqStatus
  | .success => .success
  | .serviceError _ => .serviceError
  | .invalidTx _ => .invalid
  | .doubleSpend _ _ => .doubleSpend
  | .orphanMempool _ => .orphan

/-- The verdicts of the two judges. -/
def signerVerdict (results : List PostBeefResult) : PostReqStatus :=
  (classifyBroadcastResults results).verdict

def monitorVerdict (txid : String) (results : List PostBeefResult) : PostReqStatus :=
  (verdict (countResults txid results)).2

/-! ## The signer's order -/

/-- What the classifier remembers of a kind. -/
def Signer.Seen.flag (seen : Seen) : Answer → Bool
  | .success => seen.success
  | .doubleSpend => seen.doubleSpend
  | .orphan => seen.orphan
  | .invalid => seen.invalid
  | .serviceError => false

theorem addTxid_flag {provider : String} {seen : Seen} {r : PostTxResultForTxid} {a : Answer}
    (ha : a ≠ .serviceError) : (seen.addTxid provider r).flag a = (seen.flag a || r.answer == a) := by
  unfold Seen.addTxid PostTxResultForTxid.answer
  cases r.status == "success"
  case true => cases a <;> simp [Seen.flag]
  cases r.doubleSpend == some true
  case true => cases a <;> simp [Seen.flag]
  cases r.orphanMempool == some true
  case true => cases a <;> simp [Seen.flag]
  cases hservice : r.serviceError == some true
  case true => cases a <;> simp [Seen.flag, bne, hservice] at ha ⊢
  cases a <;> simp [Seen.flag, bne, hservice]

theorem addTxids_flag {provider : String} {seen : Seen} {rs : List PostTxResultForTxid} {a : Answer}
    (ha : a ≠ .serviceError) :
    (rs.foldl (Seen.addTxid provider) seen).flag a = (seen.flag a || rs.any fun r => r.answer == a) := by
  induction rs generalizing seen with
  | nil => simp
  | cons r rs ih => rw [List.foldl_cons, ih, addTxid_flag ha, List.any_cons, Bool.or_assoc]

/-- A provider's own status counts as a success. -/
theorem addProvider_flag {seen : Seen} {p : PostBeefResult} {a : Answer} (ha : a ≠ .serviceError) :
    (seen.addProvider p).flag a = (seen.flag a || (decide (a = .success) && p.status == "success") ||
      p.txidResults.any fun r => r.answer == a) := by
  rw [Seen.addProvider, addTxids_flag ha]
  cases a <;> simp [Seen.flag]

theorem classify_flag {seen : Seen} {results : List PostBeefResult} {a : Answer}
    (ha : a ≠ .serviceError) :
    (results.foldl Seen.addProvider seen).flag a =
      (seen.flag a || (decide (a = .success) && accepts results) || reports results a) := by
  induction results generalizing seen with
  | nil => simp [accepts, reports]
  | cons p results ih =>
    rw [List.foldl_cons, ih, addProvider_flag ha]
    simp only [accepts, reports, List.any_cons, Bool.and_or_distrib_left]
    ac_rfl

theorem signerVerdict_eq (results : List PostBeefResult) :
    signerVerdict results =
      if reports results .doubleSpend then .doubleSpend
      else if accepts results || reports results .success then .success
      else if reports results .invalid then .invalid
      else if reports results .orphan then .orphan
      else .serviceError := by
  have hflag : ∀ a, a ≠ .serviceError → (results.foldl Seen.addProvider {}).flag a =
      ((decide (a = .success) && accepts results) || reports results a) := by
    intro a ha
    rw [classify_flag ha]
    cases a <;> rfl
  have hdouble : (results.foldl Seen.addProvider {}).doubleSpend = reports results .doubleSpend :=
    hflag .doubleSpend nofun
  have hsuccess : (results.foldl Seen.addProvider {}).success =
      (accepts results || reports results .success) := hflag .success nofun
  have hinvalid : (results.foldl Seen.addProvider {}).invalid = reports results .invalid :=
    hflag .invalid nofun
  have horphan : (results.foldl Seen.addProvider {}).orphan = reports results .orphan :=
    hflag .orphan nofun
  simp only [signerVerdict, classifyBroadcastResults, hdouble, hsuccess, hinvalid, horphan]
  split
  · rfl
  split
  · rfl
  split
  · rfl
  split <;> rfl

/-! ## The monitor's order -/

/-- What the monitor counts of a kind. -/
def Monitor.Counts.number (c : Counts) : Answer → Nat
  | .success => c.success
  | .doubleSpend => c.doubleSpend
  | .orphan => c.orphan
  | .invalid => c.statusError
  | .serviceError => c.serviceError

theorem getD_false_eq (o : Option Bool) : o.getD false = (o == some true) := by
  cases o with
  | none => rfl
  | some b => cases b <;> rfl

theorem add_number (c : Counts) (r : PostTxResultForTxid) (a : Answer) :
    (c.add r).number a = c.number a + if r.answer = a then 1 else 0 := by
  unfold Counts.add PostTxResultForTxid.answer
  simp only [getD_false_eq]
  cases r.status == "success"
  case true => cases a <;> simp [Counts.number]
  cases r.doubleSpend == some true
  case true => cases a <;> simp [Counts.number]
  cases r.orphanMempool == some true
  case true => cases a <;> simp [Counts.number]
  cases r.serviceError == some true <;> cases a <;> simp [Counts.number]

theorem foldl_number {rs : List PostTxResultForTxid} {c : Counts} {a : Answer} :
    0 < (rs.foldl Counts.add c).number a ↔
      0 < c.number a ∨ (rs.any fun r => r.answer == a) = true := by
  induction rs generalizing c with
  | nil => simp
  | cons r rs ih =>
    rw [List.foldl_cons, ih, add_number, List.any_cons, Bool.or_eq_true, beq_iff_eq]
    by_cases hr : r.answer = a
    · simp [hr]
    · simp [hr]

/-- When every answer concerns the posted transaction, the monitor counts what the providers say. -/
theorem countResults_number {txid : String} {results : List PostBeefResult}
    (hall : ∀ p ∈ results, ∀ r ∈ p.txidResults, r.txid = txid) (a : Answer) :
    0 < (countResults txid results).number a ↔ reports results a = true := by
  have hfilter : (results.flatMap (·.txidResults)).filter (·.txid == txid) =
      results.flatMap (·.txidResults) := by
    refine List.filter_eq_self.mpr fun r hr => ?_
    obtain ⟨p, hp, hr⟩ := List.mem_flatMap.mp hr
    exact beq_iff_eq.mpr (hall p hp r hr)
  rw [countResults, hfilter, foldl_number, List.any_flatMap]
  have hzero : ({} : Counts).number a = 0 := by cases a <;> rfl
  simp only [hzero, Nat.lt_irrefl, false_or]
  rfl

theorem monitorVerdict_eq {txid : String} {results : List PostBeefResult}
    (hall : ∀ p ∈ results, ∀ r ∈ p.txidResults, r.txid = txid) :
    monitorVerdict txid results =
      if reports results .doubleSpend then .doubleSpend
      else if reports results .success then .success
      else if reports results .orphan then .orphan
      else if reports results .invalid then .invalid
      else .serviceError := by
  have hsuccess := countResults_number hall .success
  have hdouble := countResults_number hall .doubleSpend
  have horphan := countResults_number hall .orphan
  have hinvalid := countResults_number hall .invalid
  simp only [Counts.number] at hsuccess hdouble horphan hinvalid
  have hnone : (countResults txid results).doubleSpend = 0 ↔ reports results .doubleSpend = false := by
    rw [← Bool.not_eq_true, ← hdouble]
    omega
  unfold monitorVerdict verdict
  simp only [gt_iff_lt, hsuccess, hdouble, hnone, horphan, hinvalid]
  cases reports results .doubleSpend <;> cases reports results .success <;> cases reports results .orphan <;>
    cases reports results .invalid <;> rfl

/-- The two orders do not matter for these answers: a double spend, a success of the transaction
itself, or no provider that accepts the post and not both an orphan and a rejection. -/
def OrderFree (results : List PostBeefResult) : Prop :=
  reports results .doubleSpend = true ∨ reports results .success = true ∨
    accepts results = false ∧ ¬(reports results .invalid = true ∧ reports results .orphan = true)

theorem sameVerdict_iff {txid : String} {results : List PostBeefResult}
    (hall : ∀ p ∈ results, ∀ r ∈ p.txidResults, r.txid = txid) :
    signerVerdict results = monitorVerdict txid results ↔ OrderFree results := by
  rw [signerVerdict_eq, monitorVerdict_eq hall, OrderFree]
  cases reports results .doubleSpend <;> cases accepts results <;> cases reports results .success <;>
    cases reports results .orphan <;> cases reports results .invalid <;> simp

/-! ## The statuses that a verdict writes -/

/-- The statuses of the requests and of the transactions, by row. -/
def reqStatuses (d : Tables) : List (Nat × ProvenTxReqStatus) :=
  d.provenTxReqs.rows.map fun r => (r.provenTxReqId, r.status)

def txStatuses (d : Tables) : List (Nat × TransactionStatus) :=
  d.transactions.rows.map fun t => (t.transactionId, t.status)

/-- The requests of a txid and its first transaction have the given statuses, and no status besides
these differs from before. -/
structure Judged (d d' : Tables) (txid : String) (reqStatus : ProvenTxReqStatus)
    (txStatus : TransactionStatus) : Prop where
  reqs : reqStatuses d' =
    d.provenTxReqs.rows.map fun r => (r.provenTxReqId, if r.txid = txid then reqStatus else r.status)
  txs : txStatuses d' = txStatuses (d.setFirstStatus txid txStatus)

section Judged

variable {d d' : Tables} {txid : String} {reqStatus : ProvenTxReqStatus} {txStatus : TransactionStatus}

theorem reqStatuses_setReqs {p : ProvenTxReq → ProvenTxReqPartial}
    (hp : ∀ r, (p r).status = some reqStatus) :
    reqStatuses (d.setReqs txid p) =
      d.provenTxReqs.rows.map fun r => (r.provenTxReqId, if r.txid = txid then reqStatus else r.status) := by
  simp only [reqStatuses, Tables.setReqs, Table.update, List.map_map]
  refine List.map_congr_left fun r _ => ?_
  by_cases h : r.txid = txid <;> simp [h, ProvenTxReqPartial.apply, hp]

theorem txStatuses_setFirstStatus (htx : d'.transactions = d.transactions) :
    txStatuses (d'.setFirstStatus txid txStatus) = txStatuses (d.setFirstStatus txid txStatus) := by
  have hfirst : d'.firstTx txid = d.firstTx txid := by simp only [Tables.firstTx, htx]
  simp only [Tables.setFirstStatus, hfirst]
  cases d.firstTx txid with
  | none => simp only [txStatuses, htx]
  | some f =>
    simp only [txStatuses, Stmt.apply, htx, Table.update, List.map_map]
    refine List.map_congr_left fun t _ => ?_
    simp only [Function.comp_apply]
    split <;> rfl

end Judged

/-- The statuses of request and transaction that go with a verdict. -/
def writtenStatuses : PostReqStatus → ProvenTxReqStatus × TransactionStatus
  | .success => (.unmined, .unproven)
  | .doubleSpend => (.doubleSpend, .failed)
  | .invalid => (.invalid, .failed)
  | _ => (.sending, .sending)

/-- A permanent verdict of the signer that reconciliation with the chain leaves standing, about a
transaction that is stored. -/
def Stands (services : Services) (s : Store) (txid : String) (results : List PostBeefResult) : Prop :=
  signerVerdict results = .doubleSpend ∨ signerVerdict results = .invalid →
    (reconcileTxStatus services txid (classifyBroadcastResults results)).verdict =
      signerVerdict results ∧ ∃ t ∈ s.transactions, t.txid = some txid

section Written

variable {services : Services} {s : Store} {txid : String} {results : List PostBeefResult}

theorem permanentFailure_judged {doubleSpend : Bool} {id : Nat} :
    Judged s.toTables (permanentFailure services s txid doubleSpend id) txid
      (if doubleSpend then .doubleSpend else .invalid) .failed where
  reqs := by
    have h : reqStatuses ((s.toTables.setFirstStatus txid .failed).setReqs txid fun _ =>
        { status := some (if doubleSpend then .doubleSpend else .invalid) }) = _ :=
      reqStatuses_setReqs fun _ => rfl
    rw [setFirstStatus_provenTxReqs] at h
    exact h
  txs := rfl

/-- What the signer writes for its verdict. -/
theorem signer_judged (hstands : Stands services s txid results) :
    Judged s.toTables (signerEffect services s txid (signerMove services txid results)) txid
      (writtenStatuses (signerVerdict results)).1 (writtenStatuses (signerVerdict results)).2 := by
  have haccept : ∀ orphan, Judged s.toTables (signerEffect services s txid (.accept orphan)) txid
      (if orphan then .sending else .unmined) (if orphan then .sending else .unproven) := by
    intro orphan
    refine ⟨?_, rfl⟩
    rw [signerEffect, reqStatuses_setReqs fun _ => rfl, setFirstStatus_provenTxReqs]
  have hpermanent : ∀ doubleSpend, (∃ t ∈ s.transactions, t.txid = some txid) →
      Judged s.toTables (signerEffect services s txid (.fail doubleSpend)) txid
        (if doubleSpend then .doubleSpend else .invalid) .failed := by
    rintro doubleSpend ⟨t, ht, htxid⟩
    cases hf : s.firstTx txid with
    | none => exact absurd (Table.first_none.mp hf t ht) (by simp [htxid])
    | some f =>
      simp only [signerEffect, hf]
      exact permanentFailure_judged
  unfold Stands signerVerdict at hstands
  unfold signerVerdict signerMove
  cases hc : classifyBroadcastResults results with
  | success => exact haccept false
  | orphanMempool details => exact haccept true
  | serviceError details =>
    refine ⟨?_, txStatuses_setFirstStatus rfl⟩
    simp only [reqStatuses, signerEffect, setFirstStatus_provenTxReqs]
    exact reqStatuses_setReqs fun _ => rfl
  | doubleSpend competing details =>
    rw [hc] at hstands
    obtain ⟨hleft, hrow⟩ := hstands (.inl rfl)
    simp only
    cases hr : reconcileTxStatus services txid (.doubleSpend competing details) <;> rw [hr] at hleft
    case doubleSpend => exact hpermanent true hrow
    all_goals cases hleft
  | invalidTx details =>
    rw [hc] at hstands
    obtain ⟨hleft, hrow⟩ := hstands (.inr rfl)
    simp only
    cases hr : reconcileTxStatus services txid (.invalidTx details) <;> rw [hr] at hleft
    case invalidTx => exact hpermanent false hrow
    all_goals cases hleft

theorem verdict_statuses (c : Counts) :
    (verdict c).1 = (writtenStatuses (verdict c).2).1 ∧
      cascadeStatus (verdict c).1 = some (writtenStatuses (verdict c).2).2 := by
  unfold verdict
  split
  · exact ⟨rfl, rfl⟩
  split
  · exact ⟨rfl, rfl⟩
  split
  · exact ⟨rfl, rfl⟩
  split <;> exact ⟨rfl, rfl⟩

/-- What the monitor writes for its verdict about a stored request. -/
theorem monitor_judged {req : ProvenTxReq} (hreq : req ∈ s.provenTxReqs) :
    Judged s.toTables
      (verdictEffect services s.toTables req (verdict (countResults req.txid results))) req.txid
      (writtenStatuses (monitorVerdict req.txid results)).1
      (writtenStatuses (monitorVerdict req.txid results)).2 := by
  obtain ⟨hstatus, hcascade⟩ := verdict_statuses (countResults req.txid results)
  have hreqs : reqStatuses ((Stmt.updateProvenTxReq req.provenTxReqId
      (verdictReq req (verdict (countResults req.txid results)))).apply s.toTables).2 =
      s.provenTxReqs.rows.map fun r => (r.provenTxReqId, if r.txid = req.txid then
        (writtenStatuses (monitorVerdict req.txid results)).1 else r.status) := by
    simp only [reqStatuses, Stmt.apply, Table.update, List.map_map]
    refine List.map_congr_left fun r hr => ?_
    have hsame : r.provenTxReqId = req.provenTxReqId ↔ r.txid = req.txid :=
      ⟨fun h => congrArg ProvenTxReq.txid (Table.eq_of_key_eq hr hreq h),
        fun h => congrArg ProvenTxReq.provenTxReqId (s.unique.provenTxReqs.eq hr hreq h)⟩
    by_cases h : r.txid = req.txid
    · simp [hsame.mpr h, h, verdictReq, ProvenTxReqPartial.apply, hstatus, monitorVerdict]
    · simp [mt hsame.mp h, h]
  unfold verdictEffect
  rw [hcascade]
  refine ⟨?_, ?_⟩
  · rw [← hreqs]
    simp only
    split <;> simp only [reqStatuses, Tables.releaseWhere, setFirstStatus_provenTxReqs]
  · simp only
    split
    · rename_i hfailed _
      rw [monitorVerdict, ← Option.some.inj hfailed]
      exact txStatuses_setFirstStatus rfl
    · rename_i hother _
      rw [monitorVerdict, ← Option.some.inj hother]
      exact txStatuses_setFirstStatus rfl
    · rename_i hnone
      cases hnone

end Written

/-- The judges reach the same verdict on answers about one transaction exactly when their orders do
not matter, and for the same verdict, if it stands, they leave the same statuses. -/
theorem judged_alike {txid : String} {results : List PostBeefResult}
    (hall : ∀ p ∈ results, ∀ r ∈ p.txidResults, r.txid = txid) :
    (signerVerdict results = monitorVerdict txid results ↔ OrderFree results) ∧
    ∀ (services : Services) (s : Store) (req : ProvenTxReq), req ∈ s.provenTxReqs → req.txid = txid →
      signerVerdict results = monitorVerdict txid results → Stands services s txid results →
      let bySigner := ((applyBroadcast services txid results).run Stmt.exec s).2
      let byMonitor := ((applyVerdict services req (verdict (countResults txid results)).1
        (verdict (countResults txid results)).2).run Stmt.exec s).2
      reqStatuses bySigner.toTables = reqStatuses byMonitor.toTables ∧
        txStatuses bySigner.toTables = txStatuses byMonitor.toTables := by
  refine ⟨sameVerdict_iff hall, ?_⟩
  rintro services s req hreq rfl hsame hstands
  have hsigner := signer_judged hstands
  have hmonitor : Judged s.toTables (verdictEffect services s.toTables req
      (verdict (countResults req.txid results))) req.txid _ _ := monitor_judged hreq
  rw [hsame] at hsigner
  have hs₁ : ((applyBroadcast services req.txid results).run Stmt.exec s).2.toTables =
      signerEffect services s req.txid (signerMove services req.txid results) :=
    wp_store.mp (wp_applyBroadcast (Q := fun s' => s'.toTables = _) fun _ h => h)
  have hs₂ : ((applyVerdict services req (verdict (countResults req.txid results)).1
      (verdict (countResults req.txid results)).2).run Stmt.exec s).2.toTables =
      verdictEffect services s.toTables req (verdict (countResults req.txid results)) :=
    wp_store.mp (wp_applyVerdict (Q := fun s' => s'.toTables = _) (E := fun s' => s'.toTables = _)
      fun _ h => h)
  simp only [hs₁, hs₂]
  exact ⟨hsigner.reqs.trans hmonitor.reqs.symm, hsigner.txs.trans hmonitor.txs.symm⟩

/-! ## Answers on which the judges differ -/

/-- One provider rejects the payment, another has not seen its parent. -/
def rejectedOrOrphan : List PostBeefResult :=
  [{ name := "arc"
     status := "error"
     txidResults := [{ txid := Sample.paymentTxid, status := "REJECTED" }] },
   { name := "whatsonchain"
     status := "error"
     txidResults := [{ txid := Sample.paymentTxid, status := "SEEN_IN_ORPHAN_MEMPOOL"
                       orphanMempool := some true }] }]

/-- The signer gives the payment up, the monitor sends it again. -/
theorem rejectedOrOrphan_judged :
    (∀ p ∈ rejectedOrOrphan, ∀ r ∈ p.txidResults, r.txid = Sample.paymentTxid) ∧
      signerVerdict rejectedOrOrphan = .invalid ∧
      monitorVerdict Sample.paymentTxid rejectedOrOrphan = .orphan := by
  refine ⟨?_, by decide +kernel, by decide +kernel⟩
  simp [rejectedOrOrphan]

/-- The payment is rejected, and the chain does not know it. -/
def rejected : List PostBeefResult :=
  [{ name := "arc"
     status := "error"
     txidResults := [{ txid := Sample.paymentTxid, status := "REJECTED" }] }]

theorem judged_alike_rejected :
    signerVerdict rejected = monitorVerdict Sample.paymentTxid rejected ∧
    let s := Sample.after [Sample.fund, Sample.pay, Sample.sign false]
    let req := Sample.request s
    reqStatuses ((applyBroadcast (Sample.answering "error") Sample.paymentTxid rejected).run
        Stmt.exec s).2.toTables =
      reqStatuses ((applyVerdict (Sample.answering "error") req
        (verdict (countResults Sample.paymentTxid rejected)).1
        (verdict (countResults Sample.paymentTxid rejected)).2).run Stmt.exec s).2.toTables := by
  have hall : ∀ p ∈ rejected, ∀ r ∈ p.txidResults, r.txid = Sample.paymentTxid := by simp [rejected]
  have hsame : signerVerdict rejected = monitorVerdict Sample.paymentTxid rejected := by decide +kernel
  refine ⟨hsame, ((judged_alike hall).2 (Sample.answering "error") _ _
    (Sample.request_mem (by decide +kernel)) (by decide +kernel) hsame fun _ => ⟨?_, ?_⟩).1⟩
  · decide +kernel
  · decide +kernel

end WalletToolbox
