import WalletToolbox.Laws.Outcomes
import WalletToolbox.Monitor.ProcessStatusEvent
import WalletToolbox.Sample

/-! # Streamed and posted verdicts

A streamed event writes the request, and the transactions that the request notifies.
A verdict of the providers writes the request, the first transaction with the txid, and for a failure
the inputs of that transaction.
So the two leave the same exactly when the notified transactions are the right ones, a failed
transaction has no input to release, and the event does not come to a request that it ignores. -/

namespace WalletToolbox.Monitor

open WalletToolbox.Lib WalletToolbox.Storage WalletToolbox.ArcSse
open WalletToolbox.Lib.Prog hiding pure exec

variable {s : Store} {d : Tables} {req : ProvenTxReq} {E : Store → Prop}

/-! ## The effect of an event -/

/-- The request gets a status, and the listed transactions get another. -/
def settled (d : Tables) (req : ProvenTxReq) (reqStatus : ProvenTxReqStatus) (ids : List Nat)
    (txStatus : TransactionStatus) : Tables :=
  let d₁ := ((Stmt.updateProvenTxReq req.provenTxReqId { status := some reqStatus }).apply d).2
  { d₁ with
    transactions := d₁.transactions.update (fun t => ids.contains t.transactionId)
      (({ status := some txStatus } : TransactionPartial).apply d₁.now) fun _ => rfl }

theorem wp_settleReq {reqStatus : ProvenTxReqStatus} {txStatus : TransactionStatus}
    {Q : Store → Prop}
    (h : ∀ s' : Store, s'.toTables = settled s.toTables req reqStatus (notifyIds req) txStatus → Q s') :
    wp Stmt.exec (settleReq req reqStatus txStatus) (fun _ => Q) E s := by
  unfold settleReq
  rw [wp_bind]
  refine wp_ignore_plain (by exact rfl) fun s₁ h₁ => ?_
  refine wp_forM_ignored (fun _ => by exact rfl) fun s' hs' => h s' ?_
  rw [hs', foldl_updateTransaction, h₁]
  rfl

/-- The verdict that an event stands for. -/
def eventVerdict (txStatus : String) : Option (ProvenTxReqStatus × PostReqStatus) :=
  if txStatus ∈ acceptedStatuses ∨ txStatus ∈ minedStatuses then some (.unmined, .success)
  else if txStatus = "DOUBLE_SPEND_ATTEMPTED" then some (.doubleSpend, .doubleSpend)
  else if txStatus = "REJECTED" then some (.invalid, .invalid)
  else none

/-- The transactions that an event writes. -/
def eventTargets (req : ProvenTxReq) (txStatus : String) : List Nat :=
  if txStatus ∈ minedStatuses then [] else notifyIds req

/-- The status of a transaction after a verdict. -/
def verdictTxStatus (v : ProvenTxReqStatus × PostReqStatus) : TransactionStatus :=
  if v.1 = .unmined then .unproven else .failed

/-- An event that the network has the transaction moves only some requests on. -/
def Moves (req : ProvenTxReq) (txStatus : String) : Prop :=
  txStatus ∈ acceptedStatuses → req.status ∈ preMiningStatuses

instance (req : ProvenTxReq) (txStatus : String) : Decidable (Moves req txStatus) :=
  inferInstanceAs (Decidable (_ → _))

/-- The effect of an event on an open request. -/
def eventEffect (d : Tables) (req : ProvenTxReq) (txStatus : String)
    (v : ProvenTxReqStatus × PostReqStatus) : Tables :=
  if Moves req txStatus then settled d req v.1 (eventTargets req txStatus) (verdictTxStatus v) else d

theorem settled_nil {reqStatus : ProvenTxReqStatus} {txStatus : TransactionStatus} :
    settled d req reqStatus [] txStatus =
      ((Stmt.updateProvenTxReq req.provenTxReqId { status := some reqStatus }).apply d).2 := by
  exact congrArg (fun t => { ((Stmt.updateProvenTxReq req.provenTxReqId
    { status := some reqStatus }).apply d).2 with transactions := t })
    (Table.update_none fun _ _ h => absurd h Bool.false_ne_true)

theorem wp_processStatusReq {txStatus : String} {v : ProvenTxReqStatus × PostReqStatus}
    (hopen : req.status ∉ terminalStatuses) (hv : eventVerdict txStatus = some v) {Q : Store → Prop}
    (h : ∀ s' : Store, s'.toTables = eventEffect s.toTables req txStatus v → Q s') :
    wp Stmt.exec (processStatusReq txStatus req) (fun _ => Q) E s := by
  unfold processStatusReq
  rw [if_neg hopen]
  by_cases haccepted : txStatus ∈ acceptedStatuses
  · have hmined : txStatus ∉ minedStatuses := by
      intro hmined
      unfold acceptedStatuses at haccepted
      unfold minedStatuses at hmined
      simp only [List.mem_cons, List.not_mem_nil, or_false] at haccepted hmined
      rcases haccepted with rfl | rfl | rfl <;> simp at hmined
    obtain rfl : (.unmined, .success) = v := by
      rw [eventVerdict, if_pos (.inl haccepted)] at hv
      exact Option.some.inj hv
    rw [if_pos haccepted]
    unfold eventEffect eventTargets at h
    rw [if_neg hmined] at h
    by_cases hpre : req.status ∈ preMiningStatuses
    · have hmoves : Moves req txStatus := fun _ => hpre
      rw [if_pos hpre]
      rw [if_pos hmoves] at h
      exact wp_settleReq h
    · have hmoves : ¬Moves req txStatus := fun hall => hpre (hall haccepted)
      rw [if_neg hpre]
      rw [if_neg hmoves] at h
      exact h s rfl
  · have hmoves : Moves req txStatus := fun h => absurd h haccepted
    rw [if_neg haccepted]
    unfold eventEffect eventTargets at h
    rw [if_pos hmoves] at h
    by_cases hmined : txStatus ∈ minedStatuses
    · obtain rfl : (.unmined, .success) = v := by
        rw [eventVerdict, if_pos (.inr hmined)] at hv
        exact Option.some.inj hv
      rw [if_pos hmined]
      rw [if_pos hmined] at h
      refine wp_ignore_plain (by exact rfl) fun s' hs' => h s' ?_
      rw [hs', settled_nil]
    · rw [if_neg hmined]
      rw [if_neg hmined] at h
      rw [eventVerdict, if_neg (not_or.mpr ⟨haccepted, hmined⟩)] at hv
      by_cases hdouble : txStatus = "DOUBLE_SPEND_ATTEMPTED"
      · rw [if_pos hdouble] at hv
        cases hv
        rw [if_pos hdouble]
        exact wp_settleReq h
      · rw [if_neg hdouble] at hv
        rw [if_neg hdouble]
        by_cases hrejected : txStatus = "REJECTED"
        · rw [if_pos hrejected] at hv
          cases hv
          rw [if_pos hrejected]
          exact wp_settleReq h
        · rw [if_neg hrejected] at hv
          cases hv

theorem wp_processStatusEvent {event : ArcSseEvent} {v : ProvenTxReqStatus × PostReqStatus}
    (hreq : req ∈ s.provenTxReqs) (htxid : req.txid = event.txid)
    (hopen : req.status ∉ terminalStatuses) (hv : eventVerdict event.txStatus = some v)
    {Q : Store → Prop}
    (h : ∀ s' : Store, s'.toTables = eventEffect s.toTables req event.txStatus v → Q s') :
    wp Stmt.exec (processStatusEvent event) (fun _ => Q) E s := by
  have hfind : s.provenTxReqs.find (·.txid == event.txid) = [req] :=
    Table.find_singleton hreq (beq_iff_eq.mpr htxid) fun r hr hsel =>
      s.unique.provenTxReqs.eq hr hreq ((beq_iff_eq.mp hsel).trans htxid.symm)
  unfold processStatusEvent
  rw [wp_bind, wp_ask, hfind, List.forM_cons, wp_bind]
  exact wp_processStatusReq hopen hv h

/-! ## The effect of a verdict, compared -/

/-- Two databases agree on a transaction: its request, its status, and the spendable flags and claims
of the outputs. -/
structure Agrees (txid : String) (d d' : Tables) : Prop where
  request : d.provenTxReqs.find (·.txid == txid) = d'.provenTxReqs.find (·.txid == txid)
  transaction : (d.transactions.find (·.txid == some txid)).map (fun t => (t.transactionId, t.status)) =
    (d'.transactions.find (·.txid == some txid)).map fun t => (t.transactionId, t.status)
  outputs : d.outputs.rows.map (fun o => (o.outputId, o.spendable, o.spentBy)) =
    d'.outputs.rows.map fun o => (o.outputId, o.spendable, o.spentBy)

/-- Of the transactions with the txid the listed ones are the first one, but for those that have the
status already. -/
def RightTargets (d : Tables) (txid : String) (ids : List Nat) (status : TransactionStatus) : Prop :=
  ∀ t ∈ d.transactions, t.txid = some txid →
    t.status = status ∨
      (t.transactionId ∈ ids ↔ (d.firstTx txid).map (·.transactionId) = some t.transactionId)

/-- A failure would release no output. -/
def NothingToRelease (services : Services) (d : Tables) (txid : String)
    (v : ProvenTxReqStatus × PostReqStatus) : Prop :=
  ∀ f, d.firstTx txid = some f → ∀ o ∈ d.outputs,
    o.spentBy = some f.transactionId → v.1 = .doubleSpend ∧ reportedUnspent services o = false

/-- A verdict of the three kinds that events stand for. -/
def Streamable (v : ProvenTxReqStatus × PostReqStatus) : Prop :=
  v = (.unmined, .success) ∨ v = (.doubleSpend, .doubleSpend) ∨ v = (.invalid, .invalid)

section Compare

variable {services : Services} {v : ProvenTxReqStatus × PostReqStatus} {ids : List Nat}

theorem Streamable.verdictReq_eq (h : Streamable v) : verdictReq req v = { status := some v.1 } := by
  rcases h with rfl | rfl | rfl <;> rfl

theorem Streamable.cascade (h : Streamable v) : cascadeStatus v.1 = some (verdictTxStatus v) := by
  rcases h with rfl | rfl | rfl <;> rfl

/-- The transactions after a status was set for the first one. -/
theorem setFirstStatus_transactions {txid : String} {status : TransactionStatus} :
    (d.setFirstStatus txid status).transactions =
      d.transactions.update (fun t => (d.firstTx txid).map (·.transactionId) == some t.transactionId)
        (({ status := some status } : TransactionPartial).apply d.now) fun _ => rfl := by
  unfold Tables.setFirstStatus
  cases d.firstTx txid with
  | none => exact (Table.update_none fun _ _ h => absurd h Bool.false_ne_true).symm
  | some f =>
    have hkey : ∀ t : Transaction,
        key (({ status := some status } : TransactionPartial).apply d.now t) = key t := fun _ => rfl
    refine @Table.update_congr _ _ d.transactions _ _ _ _ hkey hkey fun t _ => ?_
    rw [Option.map_some, Option.some_beq_some, BEq.comm (a := f.transactionId)]

/-- Two ways of giving transactions a status compared. -/
theorem statuses_eq_iff {txid : String} {status : TransactionStatus} {p q : Transaction → Bool}
    {f : Transaction → Transaction} (hf : ∀ t, key (f t) = key t) (htxid : ∀ t, (f t).txid = t.txid)
    (hstatus : ∀ t, (f t).status = status) :
    ((d.transactions.update p f hf).find (·.txid == some txid)).map
        (fun t => (t.transactionId, t.status)) =
      ((d.transactions.update q f hf).find (·.txid == some txid)).map
        (fun t => (t.transactionId, t.status)) ↔
      ∀ t ∈ d.transactions, t.txid = some txid → t.status = status ∨ (p t = true ↔ q t = true) := by
  have hkeeps : ∀ t, ((f t).txid == some txid) = (t.txid == some txid) := fun t => by rw [htxid]
  have hid : ∀ t, (f t).transactionId = t.transactionId := hf
  rw [Table.find_update hkeeps, Table.find_update hkeeps, List.map_map, List.map_map, List.map_inj_left]
  simp only [Table.mem_find, and_imp, beq_iff_eq, Function.comp]
  refine forall₃_congr fun t _ _ => ?_
  cases p t <;> cases q t <;> simp [hid, hstatus, eq_comm]

/-- The outputs after some were released, compared with those before. -/
theorem outputs_eq_iff {c : Output → Bool} :
    d.outputs.rows.map (fun o => (o.outputId, o.spendable, o.spentBy)) =
      (d.releaseWhere c).outputs.rows.map (fun o => (o.outputId, o.spendable, o.spentBy)) ↔
      ∀ o ∈ d.outputs, c o = true → o.spendable = true ∧ o.spentBy = none := by
  have hrows : (d.releaseWhere c).outputs.rows =
      d.outputs.rows.map fun o => if c o then release d.now o else o := rfl
  rw [hrows, List.map_map, List.map_inj_left]
  refine forall₂_congr fun o _ => ?_
  cases hc : c o with
  | false => simp only [Function.comp, hc, Bool.false_eq_true, if_false, false_implies]
  | true =>
    simp only [Function.comp, hc, if_true, release, Prod.mk.injEq, true_and, forall_const]

/-- The outputs that a verdict releases. -/
def released (services : Services) (d : Tables) (txid : String)
    (v : ProvenTxReqStatus × PostReqStatus) (o : Output) : Bool :=
  v.1 != .unmined && (d.firstTx txid).any fun f => verdictReleases services v.1 f.transactionId o

theorem releaseWhere_none {c : Output → Bool} (h : ∀ o, c o = false) :
    (d.releaseWhere c).outputs = d.outputs :=
  @Table.update_none _ _ d.outputs c (release d.now) (fun _ => rfl) fun o _ ho =>
    absurd ho (by rw [h o]; exact Bool.false_ne_true)

/-- The tables after a verdict, one after another. -/
theorem verdictEffect_tables (services : Services) (d : Tables) (req : ProvenTxReq) (hv : Streamable v) :
    (verdictEffect services d req v).provenTxReqs =
      ((Stmt.updateProvenTxReq req.provenTxReqId { status := some v.1 }).apply d).2.provenTxReqs ∧
    (verdictEffect services d req v).transactions =
      (d.setFirstStatus req.txid (verdictTxStatus v)).transactions ∧
    (verdictEffect services d req v).outputs =
      (d.releaseWhere (released services d req.txid v)).outputs := by
  generalize hmarked : ((Stmt.updateProvenTxReq req.provenTxReqId { status := some v.1 }).apply d).2 = d₁
  have hmark : ∀ status, (d₁.setFirstStatus req.txid status).transactions =
      (d.setFirstStatus req.txid status).transactions := by
    intro status
    rw [setFirstStatus_transactions, setFirstStatus_transactions, ← hmarked]
    rfl
  have houtputs : d₁.outputs = d.outputs := by rw [← hmarked]; rfl
  have hnow : d₁.now = d.now := by rw [← hmarked]; rfl
  cases hf : d.firstTx req.txid with
  | none =>
    have heffect : verdictEffect services d req v =
        d₁.setFirstStatus req.txid (verdictTxStatus v) := by
      unfold verdictEffect
      rw [hv.verdictReq_eq, hmarked, hv.cascade, hf]
      rcases hv with rfl | rfl | rfl <;> rfl
    rw [heffect]
    refine ⟨setFirstStatus_provenTxReqs, hmark _, ?_⟩
    rw [setFirstStatus_outputs, houtputs, releaseWhere_none fun o => ?_]
    rw [released, hf, Option.any_none, Bool.and_false]
  | some f =>
    have heffect : verdictEffect services d req v =
        if v.1 = .unmined then d₁.setFirstStatus req.txid .unproven
        else (d₁.setFirstStatus req.txid .failed).releaseWhere
          (verdictReleases services v.1 f.transactionId) := by
      unfold verdictEffect
      rw [hv.verdictReq_eq, hmarked, hv.cascade, hf]
      rcases hv with rfl | rfl | rfl <;> rfl
    rw [heffect]
    by_cases hsuccess : v.1 = .unmined
    · have hstatus : verdictTxStatus v = .unproven := if_pos hsuccess
      rw [if_pos hsuccess, hstatus]
      refine ⟨setFirstStatus_provenTxReqs, hmark _, ?_⟩
      rw [setFirstStatus_outputs, houtputs, releaseWhere_none fun o => ?_]
      rw [released, hsuccess]
      rfl
    · have hstatus : verdictTxStatus v = .failed := if_neg hsuccess
      rw [if_neg hsuccess, hstatus]
      refine ⟨setFirstStatus_provenTxReqs, hmark _, ?_⟩
      have hreleased : released services d req.txid v =
          verdictReleases services v.1 f.transactionId := by
        funext o
        rw [released, hf, Option.any_some, bne_iff_ne.mpr hsuccess, Bool.true_and]
      unfold Tables.releaseWhere
      rw [hreleased]
      simp only [setFirstStatus_outputs, setFirstStatus_now, houtputs, hnow]

theorem verdictEffect_agrees_iff (hv : Streamable v) :
    Agrees req.txid (settled d req v.1 ids (verdictTxStatus v)) (verdictEffect services d req v) ↔
      RightTargets d req.txid ids (verdictTxStatus v) ∧
        (v.1 ≠ .unmined → NothingToRelease services d req.txid v) := by
  obtain ⟨hreqs, htransactions, houtputs⟩ := verdictEffect_tables services d req hv
  have hstatus : ((settled d req v.1 ids (verdictTxStatus v)).transactions.find
        (·.txid == some req.txid)).map (fun t => (t.transactionId, t.status)) =
      ((verdictEffect services d req v).transactions.find
        (·.txid == some req.txid)).map (fun t => (t.transactionId, t.status)) ↔
      RightTargets d req.txid ids (verdictTxStatus v) := by
    rw [htransactions, setFirstStatus_transactions]
    refine (statuses_eq_iff (f := ({ status := some (verdictTxStatus v) } : TransactionPartial).apply d.now)
      (fun _ => rfl) (fun _ => rfl) fun _ => rfl).trans ?_
    simp only [List.contains_iff_mem, beq_iff_eq]
    exact Iff.rfl
  have hreleases : (settled d req v.1 ids (verdictTxStatus v)).outputs.rows.map
        (fun o => (o.outputId, o.spendable, o.spentBy)) =
      (verdictEffect services d req v).outputs.rows.map
        (fun o => (o.outputId, o.spendable, o.spentBy)) ↔
      (v.1 ≠ .unmined → NothingToRelease services d req.txid v) := by
    rw [houtputs]
    refine outputs_eq_iff.trans ?_
    unfold NothingToRelease
    constructor
    · intro h hfailed f hf o ho hspent
      by_contra hnot
      have hsel : released services d req.txid v o = true := by
        rw [released, hf, Option.any_some, bne_iff_ne.mpr hfailed, Bool.true_and, verdictReleases, hspent,
          beq_self_eq_true, Bool.true_and, Bool.or_eq_true, bne_iff_ne]
        by_contra hall
        rw [not_or, not_not, Bool.not_eq_true] at hall
        exact hnot hall
      rw [(h o ho hsel).2] at hspent
      cases hspent
    · intro h o ho hsel
      exfalso
      simp only [released, verdictReleases, Bool.and_eq_true, bne_iff_ne, Option.any_eq_true, beq_iff_eq,
        Bool.or_eq_true] at hsel
      obtain ⟨hfailed, f, hf, hspent, hrest⟩ := hsel
      obtain ⟨hdouble, hunspent⟩ := h hfailed f hf o ho hspent
      rcases hrest with hrest | hrest
      · exact hrest hdouble
      · rw [hunspent] at hrest
        cases hrest
  exact ⟨fun h => ⟨hstatus.mp h.transaction, hreleases.mp h.outputs⟩,
    fun h => ⟨by rw [hreqs]; rfl, hstatus.mpr h.1, hreleases.mpr h.2⟩⟩

end Compare

/-! ## Events and posts -/

/-- An event does what the verdict that it stands for does: it moves the request on, it writes the
right transactions, and a failure has nothing to release. -/
structure EventFits (services : Services) (d : Tables) (req : ProvenTxReq) (txStatus : String)
    (v : ProvenTxReqStatus × PostReqStatus) : Prop where
  moves : Moves req txStatus
  targets : RightTargets d req.txid (eventTargets req txStatus) (verdictTxStatus v)
  inputs : v.1 ≠ .unmined → NothingToRelease services d req.txid v

section Events

variable {sdk : Sdk} {sources : SourceBeefs} {services : Services} {v : ProvenTxReqStatus × PostReqStatus}

theorem streamable_of_event {txStatus : String} (h : eventVerdict txStatus = some v) : Streamable v := by
  unfold eventVerdict at h
  split at h
  · exact .inl (Option.some.inj h).symm
  · split at h
    · exact .inr (.inl (Option.some.inj h).symm)
    · split at h
      · exact .inr (.inr (Option.some.inj h).symm)
      · cases h

theorem wp_attemptToPostReqs_single {Q : Store → Prop}
    (h : ∀ s' : Store, s'.toTables = postingEffect services s.toTables req
      (posting sdk sources services s req) → Q s') :
    wp Stmt.exec (attemptToPostReqsToNetwork sdk sources services [req]) (fun _ => Q) E s := by
  unfold attemptToPostReqsToNetwork
  rw [List.foldlM_cons, wp_bind, wp_bind]
  refine Prog.wp_mono (wp_attemptToPostReq h) (fun detail s' hs' => ?_) fun _ h => h
  exact hs'

/-- A request that was sent is not posted. -/
theorem status_of_posted (h : posting sdk sources services s req = .posted v) : req.status ≠ .unmined := by
  intro hsent
  unfold posting at h
  rw [if_pos (.inr hsent)] at h
  cases h

/-- An event that does not move its request on leaves it behind. -/
theorem moves_of_agrees (hv : Streamable v) (hreq : req ∈ s.provenTxReqs) (hstatus : req.status ≠ v.1)
    (h : Agrees req.txid s.toTables (verdictEffect services s.toTables req v)) : False := by
  have hmem : req ∈ s.provenTxReqs.find (·.txid == req.txid) :=
    Table.mem_find.mpr ⟨hreq, beq_self_eq_true _⟩
  rw [h.request, Table.mem_find, (verdictEffect_tables services s.toTables req hv).1] at hmem
  obtain ⟨r, hr, heq⟩ := mem_updateProvenTxReq.mp hmem.1
  split at heq
  · exact hstatus (congrArg ProvenTxReq.status heq)
  · rename_i hkey
    rw [← heq] at hkey
    exact hkey rfl

theorem streamed_agrees {event : ArcSseEvent} (hreq : req ∈ s.provenTxReqs)
    (htxid : req.txid = event.txid) (hopen : req.status ∉ terminalStatuses)
    (hv : eventVerdict event.txStatus = some v) (hposted : posting sdk sources services s req = .posted v) :
    Agrees event.txid ((processStatusEvent event).run Stmt.exec s).2.toTables
        ((attemptToPostReqsToNetwork sdk sources services [req]).run Stmt.exec s).2.toTables ↔
      EventFits services s.toTables req event.txStatus v := by
  have hstream : ((processStatusEvent event).run Stmt.exec s).2.toTables =
      eventEffect s.toTables req event.txStatus v :=
    Prog.wp_store.mp (wp_processStatusEvent hreq htxid hopen hv fun _ h => h)
  have hpost : ((attemptToPostReqsToNetwork sdk sources services [req]).run Stmt.exec s).2.toTables =
      verdictEffect services s.toTables req v := by
    refine (Prog.wp_store (I := fun s' : Store => s'.toTables = verdictEffect services s.toTables req v)).mp
      (wp_attemptToPostReqs_single fun s' hs' => ?_)
    rw [hposted] at hs'
    exact hs'
  have hstreamable := streamable_of_event hv
  rw [hstream, hpost, ← htxid]
  by_cases hmoves : Moves req event.txStatus
  · rw [eventEffect, if_pos hmoves, verdictEffect_agrees_iff hstreamable]
    exact ⟨fun h => ⟨hmoves, h.1, h.2⟩, fun h => ⟨h.targets, h.inputs⟩⟩
  · rw [eventEffect, if_neg hmoves]
    refine iff_of_false (fun h => ?_) fun h => hmoves h.moves
    have hunmined : v.1 = .unmined := by
      rw [Moves, Classical.not_imp] at hmoves
      rw [eventVerdict, if_pos (.inl hmoves.1)] at hv
      rw [← Option.some.inj hv]
    exact moves_of_agrees hstreamable hreq (hunmined ▸ status_of_posted hposted) h

end Events

/-- On a request that is posted with the verdict that an event stands for, the event leaves what the
post leaves exactly when it fits. -/
theorem streamed_agrees_iff (sdk : Sdk) (sources : SourceBeefs) (services : Services) (s : Store)
    (req : ProvenTxReq) (event : ArcSseEvent) (v : ProvenTxReqStatus × PostReqStatus)
    (hreq : req ∈ s.provenTxReqs) (htxid : req.txid = event.txid) (hopen : req.status ∉ terminalStatuses)
    (hv : eventVerdict event.txStatus = some v)
    (hposted : posting sdk sources services s req = .posted v) :
    Agrees event.txid ((processStatusEvent event).run Stmt.exec s).2.toTables
        ((attemptToPostReqsToNetwork sdk sources services [req]).run Stmt.exec s).2.toTables ↔
      EventFits services s.toTables req event.txStatus v :=
  streamed_agrees hreq htxid hopen hv hposted

/-- The payer has signed the payment, and the monitor is to send it. -/
def signedPayment : Store :=
  Sample.after [Sample.fund, Sample.pay, Sample.sign false]

def paymentEvent (txStatus : String) : ArcSseEvent :=
  { txid := Sample.paymentTxid, txStatus, timestamp := "" }

deriving instance DecidableEq for Posting

/-- The request of the signed payment, as it is posted and as an event finds it. -/
theorem signedPayment_facts :
    (signedPayment.provenTxReqs.first (·.txid == Sample.paymentTxid)).isSome = true ∧
    (Sample.request signedPayment).txid = Sample.paymentTxid ∧
    (Sample.request signedPayment).status = .unsent ∧
    posting Sample.sdk Sample.sources (Sample.answering "success") signedPayment
      (Sample.request signedPayment) = .posted (.unmined, .success) ∧
    ∀ t ∈ signedPayment.transactions, t.txid = some Sample.paymentTxid →
      (t.transactionId ∈ notifyIds (Sample.request signedPayment) ↔
        (signedPayment.firstTx Sample.paymentTxid).map (·.transactionId) = some t.transactionId) := by
  decide +kernel

/-- The event that the network has the payment does what the answer to the post does. -/
theorem streamed_agrees_accepted :
    Agrees Sample.paymentTxid
      ((processStatusEvent (paymentEvent "SEEN_ON_NETWORK")).run Stmt.exec signedPayment).2.toTables
      ((attemptToPostReqsToNetwork Sample.sdk Sample.sources (Sample.answering "success")
        [Sample.request signedPayment]).run Stmt.exec signedPayment).2.toTables := by
  obtain ⟨hfirst, htxid, hstatus, hposted, htargets⟩ := signedPayment_facts
  have hids : eventTargets (Sample.request signedPayment) "SEEN_ON_NETWORK" =
      notifyIds (Sample.request signedPayment) := if_neg (by simp [minedStatuses])
  refine (streamed_agrees_iff Sample.sdk Sample.sources (Sample.answering "success") signedPayment
    (Sample.request signedPayment) (paymentEvent "SEEN_ON_NETWORK") (.unmined, .success)
    (Sample.request_mem hfirst) htxid (by rw [hstatus]; decide)
    (by simp [eventVerdict, paymentEvent, acceptedStatuses]) hposted).mpr
    ⟨fun _ => by rw [hstatus]; decide, fun t ht hsame => .inr ?_, fun h => absurd rfl h⟩
  rw [htxid] at hsame ⊢
  exact (congrArg (t.transactionId ∈ ·) hids).to_iff.trans (htargets t ht hsame)

/-- The event that the network has rejected the payment leaves its input claimed, and the answer to
the post releases it. -/
theorem streamed_disagrees_rejected :
    posting Sample.sdk Sample.sources (Sample.answering "error") signedPayment
        (Sample.request signedPayment) = .posted (.invalid, .invalid) ∧
    ¬Agrees Sample.paymentTxid
      ((processStatusEvent (paymentEvent "REJECTED")).run Stmt.exec signedPayment).2.toTables
      ((attemptToPostReqsToNetwork Sample.sdk Sample.sources (Sample.answering "error")
        [Sample.request signedPayment]).run Stmt.exec signedPayment).2.toTables := by
  refine ⟨by decide +kernel, fun h => ?_⟩
  have houtputs := h.outputs
  revert houtputs
  decide +kernel

end WalletToolbox.Monitor
