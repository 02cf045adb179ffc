import WalletToolbox.Laws.Outcomes
import WalletToolbox.Sample

/-! # Verdicts and the owners of a transaction

Several users may hold a transaction row with one txid.
A verdict is addressed by txid and resolved to the first row, so it reaches the other owners only
when they already are where the verdict wants them. -/

namespace WalletToolbox.Monitor

open WalletToolbox.Lib WalletToolbox.Storage WalletToolbox.Signer
open WalletToolbox.Lib.Prog hiding pure exec

/-- The calls that apply a verdict. -/
inductive VerdictCall where
  | permanentFailure (services : Services) (txid : String) (outcome : BroadcastOutcome)
  | successOrOrphan (txid : String) (outcome : BroadcastOutcome)
  | serviceError (txid : String)
  | post (sources : SourceBeefs) (services : Services) (req : ProvenTxReq)

namespace VerdictCall

/-- The txid that a call is about. -/
def txid : VerdictCall → String
  | permanentFailure _ txid _ => txid
  | successOrOrphan txid _ => txid
  | serviceError txid => txid
  | post _ _ req => req.txid

/-- The store after a call. -/
def after (sdk : Sdk) (s : Store) : VerdictCall → Store
  | permanentFailure services txid outcome =>
    ((handlePermanentBroadcastFailure services txid outcome).run Stmt.exec s).2
  | successOrOrphan txid outcome => ((applySuccessOrOrphanOutcome txid outcome).run Stmt.exec s).2
  | serviceError txid => ((applyServiceErrorOutcome txid).run Stmt.exec s).2
  | post sources services req =>
    ((attemptToPostReqsToNetwork sdk sources services [req]).run Stmt.exec s).2

/-- The transaction status that the verdict of a call prescribes; none when the call applies no
verdict, because reconciliation withdrew it or the request is not posted. -/
def prescribed (sdk : Sdk) (s : Store) : VerdictCall → Option TransactionStatus
  | permanentFailure services txid outcome =>
    match reconcileTxStatus services txid outcome with
    | .doubleSpend _ _ | .invalidTx _ => some .failed
    | .serviceError _ => some .sending
    | .success | .orphanMempool _ => none
  | successOrOrphan _ outcome => some (if outcome.isOrphan then .sending else .unproven)
  | serviceError _ => some .sending
  | post sources services req =>
    match posting sdk sources services s req with
    | .skipped | .missingSource => none
    | .unusable => some .failed
    | .posted v => cascadeStatus v.1

/-- Whether a call writes the status of the transaction row with the id: only that of the first
row with the txid, and none for a request that cannot be posted. -/
def writes (sdk : Sdk) (s : Store) (call : VerdictCall) (id : Nat) : Bool :=
  (s.firstTx call.txid).any (·.transactionId == id) &&
    match call with
    | post sources services req =>
      match posting sdk sources services s req with
      | .unusable => false
      | _ => true
    | _ => true

/-- Whether a call retires the outputs of the transaction row with the id: only the signer does. -/
def retires (s : Store) (call : VerdictCall) (id : Nat) : Bool :=
  match call with
  | permanentFailure services txid outcome =>
    match reconcileTxStatus services txid outcome with
    | .doubleSpend _ _ | .invalidTx _ => (s.firstTx txid).any (·.transactionId == id)
    | _ => false
  | _ => false

/-- Whether a call releases an output: one that the first row with the txid claims and, for a double
spend, that the chain reports as unspent. -/
def releases (sdk : Sdk) (s : Store) (call : VerdictCall) (o : Output) : Bool :=
  (s.firstTx call.txid).any fun f =>
    match call with
    | permanentFailure services txid outcome =>
      match reconcileTxStatus services txid outcome with
      | .doubleSpend _ _ => o.spentBy == some f.transactionId && utxoVerified services s o
      | .invalidTx _ => o.spentBy == some f.transactionId
      | _ => false
    | post sources services req =>
      match posting sdk sources services s req with
      | .posted v => cascadeStatus v.1 == some .failed && verdictReleases services v.1 f.transactionId o
      | _ => false
    | _ => false

end VerdictCall

/-- All owners have the status, and after a failure none of their outputs is spendable. -/
def ReachesOwners (txid : String) (status : TransactionStatus) (s : Store) : Prop :=
  ∀ t ∈ s.transactions, t.txid = some txid → t.status = status ∧
    (status = .failed → ∀ o ∈ s.outputs, o.transactionId = t.transactionId → o.spendable = false)

/-- The owners whose row a call does not write have the status already, and for a failure no output
of an owner is released, and none is spendable but those that the call retires. -/
def OwnersReady (sdk : Sdk) (s : Store) (call : VerdictCall) (status : TransactionStatus) : Prop :=
  ∀ t ∈ s.transactions, t.txid = some call.txid →
    (call.writes sdk s t.transactionId = false → t.status = status) ∧
    (status = .failed → ∀ o ∈ s.outputs, o.transactionId = t.transactionId →
      call.releases sdk s o = false ∧
        (o.spendable = true → call.retires s t.transactionId = true))

/-- The effect of a verdict on transactions and outputs. -/
structure Applied (s s' : Store) (status : TransactionStatus) (writes retires : Nat → Bool)
    (releases : Output → Bool) : Prop where
  transactions : ∃ stamp, ∀ t, t ∈ s'.transactions ↔ ∃ t₀ ∈ s.transactions,
    t = if writes t₀.transactionId then { t₀ with status, updatedAt := stamp } else t₀
  outputs : ∃ g : Output → Output, (∀ o, o ∈ s'.outputs ↔ ∃ o₀ ∈ s.outputs, o = g o₀) ∧
    ∀ o, (g o).transactionId = o.transactionId ∧
      (status = .failed → ((g o).spendable = true ↔
        releases o = true ∨ (o.spendable = true ∧ retires o.transactionId = false)))

theorem Applied.reachesOwners_iff {s s' : Store} {status : TransactionStatus}
    {writes retires : Nat → Bool} {releases : Output → Bool} {txid : String}
    (h : Applied s s' status writes retires releases) :
    ReachesOwners txid status s' ↔
      ∀ t ∈ s.transactions, t.txid = some txid →
        (writes t.transactionId = false → t.status = status) ∧
        (status = .failed → ∀ o ∈ s.outputs, o.transactionId = t.transactionId →
          releases o = false ∧ (o.spendable = true → retires t.transactionId = true)) := by
  obtain ⟨stamp, htx⟩ := h.transactions
  obtain ⟨g, hmem, hg⟩ := h.outputs
  -- the image of a row keeps its id and its txid, and has the status when it is written
  have himage : ∀ t₀ : Transaction, ∀ t, t = (if writes t₀.transactionId
      then { t₀ with status, updatedAt := stamp } else t₀) →
      t.transactionId = t₀.transactionId ∧ t.txid = t₀.txid ∧
        (t.status = status ↔ (writes t₀.transactionId = false → t₀.status = status)) := by
    rintro t₀ t rfl
    cases hw : writes t₀.transactionId <;> simp
  have hspend : status = .failed → ∀ o, (g o).spendable = false ↔
      releases o = false ∧ (o.spendable = true → retires o.transactionId = true) := by
    intro hst o
    rw [← Bool.not_eq_true, (hg o).2 hst]
    simp only [not_or, not_and, Bool.not_eq_true, Bool.not_eq_false]
  constructor
  · intro hall t₀ h₀ htxid
    obtain ⟨hid, htxid', hstatus⟩ := himage t₀ _ rfl
    obtain ⟨hst, hout⟩ := hall _ ((htx _).mpr ⟨t₀, h₀, rfl⟩) (htxid'.trans htxid)
    refine ⟨hstatus.mp hst, fun hfailed o ho hot => ?_⟩
    have hg' := hout hfailed (g o) ((hmem _).mpr ⟨o, ho, rfl⟩) (by rw [(hg o).1, hot, hid])
    rw [← hot]
    exact (hspend hfailed o).mp hg'
  · intro hall t ht htxid
    obtain ⟨t₀, h₀, heq⟩ := (htx t).mp ht
    obtain ⟨hid, htxid', hstatus⟩ := himage t₀ t heq
    obtain ⟨hst, hout⟩ := hall t₀ h₀ (htxid'.symm.trans htxid)
    refine ⟨hstatus.mpr hst, fun hfailed o ho hot => ?_⟩
    obtain ⟨o₀, ho₀, rfl⟩ := (hmem o).mp ho
    have hot₀ : o₀.transactionId = t₀.transactionId := by rw [← (hg o₀).1, hot, hid]
    refine (hspend hfailed o₀).mpr ?_
    rw [hot₀]
    exact hout hfailed o₀ ho₀ hot₀

/-! ## The calls apply their verdict to the first row -/

section Calls

variable {sdk : Sdk} {s s' : Store}

theorem rows_setFirstStatus {d : Tables} {r : Store} {txid : String} {status : TransactionStatus}
    (hd : d.transactions = s.transactions)
    (h : r.transactions = (d.setFirstStatus txid status).transactions) :
    ∃ stamp, ∀ t, t ∈ r.transactions ↔ ∃ t₀ ∈ s.transactions,
      t = if (s.firstTx txid).any (·.transactionId == t₀.transactionId)
        then { t₀ with status, updatedAt := stamp } else t₀ := by
  refine ⟨toSeconds d.now, fun t => ?_⟩
  have hfirst : d.firstTx txid = s.firstTx txid := by
    unfold Tables.firstTx
    rw [hd]
  rw [h, mem_setFirstStatus, hd, hfirst]

/-- A verdict other than a failure leaves the outputs alone. -/
theorem outputs_unchanged {status : TransactionStatus} {retires : Nat → Bool}
    {releases : Output → Bool} (hst : status ≠ .failed) (h : s'.outputs = s.outputs) :
    ∃ g : Output → Output, (∀ o, o ∈ s'.outputs ↔ ∃ o₀ ∈ s.outputs, o = g o₀) ∧
      ∀ o, (g o).transactionId = o.transactionId ∧
        (status = .failed → ((g o).spendable = true ↔
          releases o = true ∨ (o.spendable = true ∧ retires o.transactionId = false))) := by
  refine ⟨id, fun o => ?_, fun o => ⟨rfl, fun hf => absurd hf hst⟩⟩
  rw [h]
  exact ⟨fun ho => ⟨o, ho, rfl⟩, by rintro ⟨o₀, ho, rfl⟩; exact ho⟩

/-- A permanent failure retires the outputs of the transaction and then releases its inputs. -/
theorem outputs_permanentFailure {services : Services} {txid : String} {doubleSpend : Bool}
    {id : Nat} (h : s'.toTables = Signer.permanentFailure services s txid doubleSpend id) :
    ∃ g : Output → Output, (∀ o, o ∈ s'.outputs ↔ ∃ o₀ ∈ s.outputs, o = g o₀) ∧
      ∀ o, (g o).transactionId = o.transactionId ∧ ((g o).spendable = true ↔
        (o.spentBy == some id && (!doubleSpend || utxoVerified services s o)) = true ∨
          (o.spendable = true ∧ (id == o.transactionId) = false)) := by
  refine ⟨fun o =>
    let o₁ := if o.transactionId == id
      then { o with spendable := false, updatedAt := toSeconds s.now } else o
    if failureReleases services s doubleSpend id o₁ then release s.now o₁ else o₁, fun o => ?_,
    fun o => ?_⟩
  · rw [h, Signer.permanentFailure, mem_releaseWhere]
    constructor
    · rintro ⟨o₁, h₁, rfl⟩
      obtain ⟨o₀, h₀, rfl⟩ := mem_retire.mp h₁
      have hmem : o₀ ∈ (s.toTables.setFirstStatus txid .failed).outputs := h₀
      rw [setFirstStatus_outputs] at hmem
      refine ⟨o₀, hmem, ?_⟩
      simp only [Tables.retire, Tables.setReqs, setFirstStatus_now]
    · rintro ⟨o₀, h₀, rfl⟩
      refine ⟨_, mem_retire.mpr ⟨o₀, ?_, rfl⟩, ?_⟩
      · show o₀ ∈ (s.toTables.setFirstStatus txid .failed).outputs
        rw [setFirstStatus_outputs]
        exact h₀
      · simp only [Tables.retire, Tables.setReqs, setFirstStatus_now]
  · have hverified : ∀ b stamp, utxoVerified services s
        { o with spendable := b, updatedAt := stamp } = utxoVerified services s o := fun _ _ => rfl
    cases htx : o.transactionId == id <;> cases hsp : o.spentBy == some id <;>
      cases doubleSpend <;> cases hv : utxoVerified services s o <;> cases ho : o.spendable <;>
      simp_all [failureReleases, release, Bool.beq_comm]

/-- A failure that the monitor applies releases inputs and retires nothing. -/
theorem outputs_releaseWhere {d : Tables} {c : Output → Bool} (hd : d.outputs = s.outputs)
    (h : s'.outputs = (d.releaseWhere c).outputs) :
    ∃ g : Output → Output, (∀ o, o ∈ s'.outputs ↔ ∃ o₀ ∈ s.outputs, o = g o₀) ∧
      ∀ o, (g o).transactionId = o.transactionId ∧
        ((g o).spendable = true ↔ c o = true ∨ o.spendable = true) := by
  refine ⟨fun o => if c o then release d.now o else o, fun o => ?_, fun o => ?_⟩
  · rw [h, mem_releaseWhere, hd]
  · cases hc : c o <;> simp [hc, release]

theorem permanentFailure_applied {services : Services} {txid : String} {doubleSpend : Bool}
    {f : Transaction} {writes retires : Nat → Bool} {releases : Output → Bool}
    (hf : s.firstTx txid = some f)
    (h : s'.toTables = Signer.permanentFailure services s txid doubleSpend f.transactionId)
    (hwrites : ∀ id, writes id = (f.transactionId == id))
    (hretires : ∀ id, retires id = (f.transactionId == id))
    (hreleases : ∀ o, releases o =
      (o.spentBy == some f.transactionId && (!doubleSpend || utxoVerified services s o))) :
    Applied s s' .failed writes retires releases := by
  obtain ⟨stamp, hrows⟩ := rows_setFirstStatus (s := s) (r := s') (d := s.toTables) rfl
    (show s'.transactions = (s.toTables.setFirstStatus txid .failed).transactions by rw [h]; rfl)
  obtain ⟨g, hmem, hg⟩ := outputs_permanentFailure h
  refine ⟨⟨stamp, fun t => ?_⟩, g, hmem, fun o => ⟨(hg o).1, fun _ => ?_⟩⟩
  · simpa only [hwrites, hf, Option.any_some] using hrows t
  · simpa only [hreleases, hretires] using (hg o).2

theorem serviceError_applied {txid : String} {writes retires : Nat → Bool}
    {releases : Output → Bool}
    (h : s'.toTables = (s.toTables.setReqs txid serviceErrorReq).setFirstStatus txid .sending)
    (hwrites : ∀ id, writes id = (s.firstTx txid).any (·.transactionId == id)) :
    Applied s s' .sending writes retires releases := by
  obtain ⟨stamp, hrows⟩ := rows_setFirstStatus (s := s) (r := s')
    (d := s.toTables.setReqs txid serviceErrorReq) rfl (congrArg Tables.transactions h)
  refine ⟨⟨stamp, fun t => by simpa only [hwrites] using hrows t⟩, outputs_unchanged nofun ?_⟩
  rw [h, setFirstStatus_outputs]
  rfl

/-- A call that finds no row with the txid, or writes only the request, applies nothing. -/
theorem applied_nothing {status : TransactionStatus} {writes retires : Nat → Bool}
    {releases : Output → Bool} (htx : s'.transactions = s.transactions)
    (hout : s'.outputs = s.outputs) (hwrites : ∀ id, writes id = false)
    (hretires : ∀ id, retires id = false) (hreleases : ∀ o, releases o = false) :
    Applied s s' status writes retires releases := by
  refine ⟨⟨0, fun t => ?_⟩, id, fun o => ?_, fun o => ⟨rfl, fun _ => by simp [hretires, hreleases]⟩⟩
  · simp only [htx, hwrites, Bool.false_eq_true, if_false]
    exact ⟨fun h => ⟨t, h, rfl⟩, by rintro ⟨t₀, h, rfl⟩; exact h⟩
  · rw [hout]
    exact ⟨fun h => ⟨o, h, rfl⟩, by rintro ⟨o₀, h, rfl⟩; exact h⟩

/-- The effect that a call has when it prescribes a status. -/
def VerdictCall.AppliedTo (sdk : Sdk) (s : Store) (call : VerdictCall) (status : TransactionStatus)
    (s' : Store) : Prop :=
  Applied s s' status (call.writes sdk s) (call.retires s) (call.releases sdk s)

theorem wp_permanentFailure_applied {services : Services} {txid : String}
    {outcome : BroadcastOutcome} {status : TransactionStatus} {call : VerdictCall}
    (hcall : call = .permanentFailure services txid outcome)
    (h : call.prescribed sdk s = some status) :
    wp Stmt.exec (handlePermanentBroadcastFailure services txid outcome)
      (fun _ => call.AppliedTo sdk s status) (call.AppliedTo sdk s status) s := by
  subst hcall
  refine wp_handlePermanentBroadcastFailure ?_
  simp only [VerdictCall.prescribed] at h
  have hnothing : s.firstTx txid = none →
      (VerdictCall.permanentFailure services txid outcome).AppliedTo sdk s status s := by
    intro hnone
    refine applied_nothing rfl rfl (fun id => ?_) (fun id => ?_) fun o => ?_
    · simp [VerdictCall.writes, VerdictCall.txid, hnone]
    · simp only [VerdictCall.retires, hnone]
      split <;> rfl
    · simp [VerdictCall.releases, VerdictCall.txid, hnone]
  cases hr : reconcileTxStatus services txid outcome with
  | success => simp [hr] at h
  | orphanMempool details => simp [hr] at h
  | serviceError details =>
    simp only [hr, Option.some.injEq] at h ⊢
    subst h
    exact fun s' hs' => serviceError_applied hs' fun id => by
      simp [VerdictCall.writes, VerdictCall.txid]
  | doubleSpend competing details =>
    simp only [hr, Option.some.injEq] at h ⊢
    subst h
    refine ⟨hnothing, fun f hf s' hs' => permanentFailure_applied hf hs' (fun id => ?_)
      (fun id => ?_) fun o => ?_⟩
    · simp [VerdictCall.writes, VerdictCall.txid, hf]
    · simp [VerdictCall.retires, hr, hf]
    · simp [VerdictCall.releases, VerdictCall.txid, hr, hf]
  | invalidTx details =>
    simp only [hr, Option.some.injEq] at h ⊢
    subst h
    refine ⟨hnothing, fun f hf s' hs' => permanentFailure_applied hf hs' (fun id => ?_)
      (fun id => ?_) fun o => ?_⟩
    · simp [VerdictCall.writes, VerdictCall.txid, hf]
    · simp [VerdictCall.retires, hr, hf]
    · simp [VerdictCall.releases, VerdictCall.txid, hr, hf]

theorem wp_successOrOrphan_applied {txid : String} {outcome : BroadcastOutcome}
    {status : TransactionStatus} {call : VerdictCall} (hcall : call = .successOrOrphan txid outcome)
    (h : call.prescribed sdk s = some status) :
    wp Stmt.exec (applySuccessOrOrphanOutcome txid outcome) (fun _ => call.AppliedTo sdk s status)
      (call.AppliedTo sdk s status) s := by
  subst hcall
  simp only [VerdictCall.prescribed, Option.some.injEq] at h
  refine wp_applySuccessOrOrphanOutcome fun s' hs' => ?_
  rw [h] at hs'
  obtain ⟨stamp, hrows⟩ := rows_setFirstStatus (s := s) (r := s') (d := s.toTables) rfl
    (show s'.transactions = (s.toTables.setFirstStatus txid status).transactions by rw [hs']; rfl)
  refine ⟨⟨stamp, fun t => ?_⟩, outputs_unchanged ?_ ?_⟩
  · simpa [VerdictCall.writes, VerdictCall.txid] using hrows t
  · rw [← h]
    cases outcome.isOrphan <;> nofun
  · have hsame : s'.outputs = (s.toTables.setFirstStatus txid status).outputs := by rw [hs']; rfl
    rw [hsame, setFirstStatus_outputs]

theorem verdictEffect_transactions {services : Services} {d : Tables} {req : ProvenTxReq}
    {v : ProvenTxReqStatus × PostReqStatus} {status : TransactionStatus}
    (h : cascadeStatus v.1 = some status) :
    (verdictEffect services d req v).transactions = (((Stmt.updateProvenTxReq req.provenTxReqId
      (verdictReq req v)).apply d).2.setFirstStatus req.txid status).transactions := by
  simp only [verdictEffect, h]
  cases status <;> cases d.firstTx req.txid <;> rfl

theorem verdictEffect_outputs_same {services : Services} {d : Tables} {req : ProvenTxReq}
    {v : ProvenTxReqStatus × PostReqStatus} {status : TransactionStatus}
    (h : cascadeStatus v.1 = some status) (hst : status ≠ .failed) :
    (verdictEffect services d req v).outputs = d.outputs := by
  simp only [verdictEffect, h]
  cases status <;> cases d.firstTx req.txid <;>
    first | exact absurd rfl hst | exact setFirstStatus_outputs

theorem verdictEffect_outputs {services : Services} {req : ProvenTxReq}
    {v : ProvenTxReqStatus × PostReqStatus} (h : cascadeStatus v.1 = some .failed)
    (hs' : s'.toTables = verdictEffect services s.toTables req v) :
    ∃ g : Output → Output, (∀ o, o ∈ s'.outputs ↔ ∃ o₀ ∈ s.outputs, o = g o₀) ∧
      ∀ o, (g o).transactionId = o.transactionId ∧ ((g o).spendable = true ↔
        ((s.firstTx req.txid).any fun f => verdictReleases services v.1 f.transactionId o) = true ∨
          o.spendable = true) := by
  cases hf : s.firstTx req.txid with
  | none =>
    refine ⟨id, fun o => ?_, fun o => ⟨rfl, by simp⟩⟩
    have hout : s'.outputs = s.outputs := by
      rw [hs']
      simp only [verdictEffect, h, hf]
      exact setFirstStatus_outputs
    rw [hout]
    exact ⟨fun ho => ⟨o, ho, rfl⟩, by rintro ⟨o₀, ho, rfl⟩; exact ho⟩
  | some f =>
    simp only [verdictEffect, h, hf] at hs'
    simp only [Option.any_some]
    refine outputs_releaseWhere ?_ (congrArg Tables.outputs hs')
    exact setFirstStatus_outputs

theorem wp_post_applied {sources : SourceBeefs} {services : Services} {req : ProvenTxReq}
    {status : TransactionStatus} {call : VerdictCall} (hcall : call = .post sources services req)
    (h : call.prescribed sdk s = some status) :
    wp Stmt.exec (attemptToPostReq sdk sources services req)
      (fun _ => call.AppliedTo sdk s status) (call.AppliedTo sdk s status) s := by
  subst hcall
  refine wp_attemptToPostReq fun s' hs' => ?_
  simp only [VerdictCall.prescribed] at h
  cases hp : posting sdk sources services s req with
  | skipped => simp [hp] at h
  | missingSource => simp [hp] at h
  | unusable =>
    rw [hp] at hs'
    refine applied_nothing (by rw [hs']; rfl) (by rw [hs']; rfl) (fun id => ?_) (fun id => ?_)
      fun o => ?_
    · simp [VerdictCall.writes, hp]
    · simp [VerdictCall.retires]
    · simp [VerdictCall.releases, VerdictCall.txid, hp]
  | posted v =>
    simp only [hp] at h
    rw [hp] at hs'
    have hwrites : ∀ id, (VerdictCall.post sources services req).writes sdk s id =
        (s.firstTx req.txid).any (·.transactionId == id) := fun id => by
      simp [VerdictCall.writes, VerdictCall.txid, hp]
    have hreleases : ∀ o, (VerdictCall.post sources services req).releases sdk s o =
        (s.firstTx req.txid).any fun f => status == .failed &&
          verdictReleases services v.1 f.transactionId o := fun o => by
      simp [VerdictCall.releases, VerdictCall.txid, hp, h]
    have hrows : s'.transactions = (((Stmt.updateProvenTxReq req.provenTxReqId
        (verdictReq req v)).apply s.toTables).2.setFirstStatus req.txid status).transactions := by
      rw [hs']
      exact verdictEffect_transactions h
    obtain ⟨stamp, hrows⟩ := rows_setFirstStatus (s := s) (by exact rfl) hrows
    refine ⟨⟨stamp, fun t => by simpa only [hwrites] using hrows t⟩, ?_⟩
    by_cases hfailed : status = .failed
    · subst hfailed
      obtain ⟨g, hmem, hg⟩ := verdictEffect_outputs h hs'
      refine ⟨g, hmem, fun o => ⟨(hg o).1, fun _ => ?_⟩⟩
      rw [(hg o).2, hreleases]
      simp [VerdictCall.retires]
    · refine outputs_unchanged hfailed ?_
      rw [hs']
      exact verdictEffect_outputs_same h hfailed

/-- A list of one request is the request. -/
theorem wp_attemptToPostReqsToNetwork_singleton {sources : SourceBeefs} {services : Services}
    {req : ProvenTxReq} {I : Store → Prop}
    (h : wp Stmt.exec (attemptToPostReq sdk sources services req) (fun _ => I) I s) :
    wp Stmt.exec (attemptToPostReqsToNetwork sdk sources services [req]) (fun _ => I) I s := by
  unfold attemptToPostReqsToNetwork
  simp only [List.foldlM_cons, List.foldlM_nil, wp_bind]
  exact wp_mono h (fun _ _ h' => h') fun _ h' => h'

/-- The store after a call that prescribes a status is the store with the verdict applied. -/
theorem VerdictCall.after_applied {call : VerdictCall} {status : TransactionStatus}
    (h : call.prescribed sdk s = some status) :
    call.AppliedTo sdk s status (call.after sdk s) := by
  cases call with
  | permanentFailure services txid outcome =>
    exact wp_store.mp (wp_permanentFailure_applied rfl h)
  | successOrOrphan txid outcome => exact wp_store.mp (wp_successOrOrphan_applied rfl h)
  | serviceError txid =>
    obtain rfl : TransactionStatus.sending = status := Option.some.inj h
    have hwp : wp Stmt.exec (applyServiceErrorOutcome txid)
        (fun _ => (VerdictCall.serviceError txid).AppliedTo sdk s .sending)
        ((VerdictCall.serviceError txid).AppliedTo sdk s .sending) s := by
      refine wp_applyServiceErrorOutcome (fun s' hs' => ?_) (fun s' hs' => ?_)
      all_goals
        exact serviceError_applied hs' fun id => by simp [VerdictCall.writes, VerdictCall.txid]
    exact wp_store.mp hwp
  | post sources services req =>
    exact wp_store.mp (wp_attemptToPostReqsToNetwork_singleton (wp_post_applied rfl h))

/-- The verdict of a call reaches every owner of the transaction exactly when the owners other than
the first one are where it wants them. -/
theorem verdict_reaches_owners (call : VerdictCall) (s : Store) :
    (∀ status, call.prescribed sdk s = some status →
      ReachesOwners call.txid status (call.after sdk s)) ↔
    ∀ status, call.prescribed sdk s = some status → OwnersReady sdk s call status := by
  refine forall_congr' fun status => forall_congr' fun h => ?_
  exact Applied.reachesOwners_iff (VerdictCall.after_applied h)

end Calls

/-! ## Two owners of one payment -/

/-- A row for the payment. -/
def paymentRow (userId : Nat) (reference : String) (isOutgoing : Bool) (satoshis : Int)
    (status : TransactionStatus) : Transaction :=
  { userId, provenTxId := none, status, reference, isOutgoing, satoshis, description := "payment"
    version := some 1, lockTime := some 0, txid := some Sample.paymentTxid, inputBeef := none
    rawTx := some Sample.paymentRaw }

/-- The payee's output of the payment. -/
def payeeOutput (userId transactionId : Nat) : Output :=
  { userId, transactionId, basketId := none, spendable := true, change := false
    outputDescription := none, vout := 0, satoshis := 500, providedBy := .you, purpose := ""
    outputType := "custom", txid := some Sample.paymentTxid, senderIdentityKey := none
    derivationPrefix := none, derivationSuffix := none, customInstructions := none, spentBy := none
    sequenceNumber := none, spendingDescription := none, scriptLength := none, scriptOffset := none
    lockingScript := some Sample.bobScript }

/-- A payer and a payee hold the payment in one store. -/
def sharedStore : Store :=
  (Prog.run Stmt.exec (do
    let payer ← exec (.insertUser { identityKey := Sample.alice, activeStorage := "" })
    let payee ← exec (.insertUser { identityKey := Sample.bob, activeStorage := "" })
    exec' (.insertTransaction (paymentRow payer "cGF5ZXIwMDAx" true (-523) .sending))
    let id ← exec (.insertTransaction (paymentRow payee "cGF5ZWUwMDAx" false 500 .unproven))
    exec' (.insertOutput (payeeOutput payee id))) Store.empty).2

/-- The chain does not know the transaction, so a rejection stands. -/
def unknownToChain : Services where
  postBeef _ _ := []
  getStatusForTxids txids :=
    { status := "success", results := txids.map fun txid => { txid, status := "unknown" } }
  isUtxo _ _ _ := .ok false
  getMerklePath _ := {}

/-- The payer's row fails and the payee's does not, and the payee's output stays spendable. -/
theorem verdict_misses_payee :
    ¬∀ status, (VerdictCall.permanentFailure unknownToChain Sample.paymentTxid
        (.invalidTx ["arc: rejected"])).prescribed Sample.sdk sharedStore = some status →
      ReachesOwners Sample.paymentTxid status ((VerdictCall.permanentFailure unknownToChain
        Sample.paymentTxid (.invalidTx ["arc: rejected"])).after Sample.sdk sharedStore) := by
  intro h
  have hpayee : ∃ t ∈ ((handlePermanentBroadcastFailure unknownToChain Sample.paymentTxid
      (.invalidTx ["arc: rejected"])).run Stmt.exec sharedStore).2.transactions.rows,
      t.txid = some Sample.paymentTxid ∧ t.status = .unproven := by decide +kernel
  obtain ⟨t, ht, htxid, hstatus⟩ := hpayee
  have hfailed := (h .failed (by decide +kernel) t ht htxid).1
  rw [hstatus] at hfailed
  cases hfailed

end WalletToolbox.Monitor
