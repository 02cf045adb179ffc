import WalletToolbox.Laws.Provider
import WalletToolbox.Monitor.Helpers
import WalletToolbox.Signer.BroadcastOutcome

/-! # What a broadcast outcome does

Every outcome that the signer or the monitor applies is a composition of four rewritings of the
tables: the status of the first transaction with a txid, the status of the requests with a txid,
the retirement of the outputs of a transaction, and the release of claimed outputs.
No statement of an outcome is ever refused, so an outcome has one effect. -/

namespace WalletToolbox.Storage

open WalletToolbox.Lib
open WalletToolbox.Lib.Prog hiding pure exec

/-! ## The rewritings -/

/-- The first transaction with the txid, the one that lookups by txid find. -/
def Tables.firstTx (d : Tables) (txid : String) : Option Transaction :=
  d.transactions.first (·.txid == some txid)

/-- The first transaction with the txid gets a status. -/
def Tables.setFirstStatus (d : Tables) (txid : String) (status : TransactionStatus) : Tables :=
  match d.firstTx txid with
  | none => d
  | some t => ((Stmt.updateTransaction t.transactionId { status := some status }).apply d).2

/-- Every request with the txid is updated. -/
def Tables.setReqs (d : Tables) (txid : String) (p : ProvenTxReq → ProvenTxReqPartial) : Tables :=
  { d with
    provenTxReqs := d.provenTxReqs.update (·.txid == txid) (fun r => (p r).apply d.now r)
      fun _ => rfl }

/-- The outputs of a transaction are made unspendable. -/
def Tables.retire (d : Tables) (id : Nat) : Tables :=
  { d with
    outputs := d.outputs.update (·.transactionId == id)
      (({ spendable := some false } : OutputPartial).apply d.now) fun _ => rfl }

theorem key_release (d : Tables) (o : Output) : Keyed.key (release d.now o) = Keyed.key o :=
  rfl

/-- The selected outputs are made spendable and lose their claim. -/
def Tables.releaseWhere (d : Tables) (c : Output → Bool) : Tables :=
  { d with outputs := d.outputs.update c (release d.now) (key_release d) }

section Effects

variable {d : Tables} {txid : String}

theorem setFirstStatus_outputs {status : TransactionStatus} :
    (d.setFirstStatus txid status).outputs = d.outputs := by
  unfold Tables.setFirstStatus
  split <;> rfl

theorem setFirstStatus_provenTxReqs {status : TransactionStatus} :
    (d.setFirstStatus txid status).provenTxReqs = d.provenTxReqs := by
  unfold Tables.setFirstStatus
  split <;> rfl

theorem setFirstStatus_provenTxs {status : TransactionStatus} :
    (d.setFirstStatus txid status).provenTxs = d.provenTxs := by
  unfold Tables.setFirstStatus
  split <;> rfl

theorem setFirstStatus_now {status : TransactionStatus} :
    (d.setFirstStatus txid status).now = d.now := by
  unfold Tables.setFirstStatus
  split <;> rfl

/-- The rows after the status of the first transaction is set. -/
theorem mem_setFirstStatus {status : TransactionStatus} {t : Transaction} :
    t ∈ (d.setFirstStatus txid status).transactions ↔
      ∃ t₀ ∈ d.transactions, t =
        if (d.firstTx txid).any (·.transactionId == t₀.transactionId)
        then { t₀ with status := status, updatedAt := toSeconds d.now } else t₀ := by
  unfold Tables.setFirstStatus
  cases d.firstTx txid with
  | none =>
    simp only [Option.any_none, Bool.false_eq_true, if_false]
    exact ⟨fun h => ⟨t, h, rfl⟩, by rintro ⟨t₀, h, rfl⟩; exact h⟩
  | some f =>
    rw [mem_updateTransaction]
    simp only [Option.any_some, beq_iff_eq, @eq_comm _ f.transactionId]
    exact Iff.rfl

theorem firstTx_setFirstStatus {other : String} {status : TransactionStatus} :
    ((d.setFirstStatus txid status).firstTx other).map (·.transactionId) =
      (d.firstTx other).map (·.transactionId) := by
  unfold Tables.setFirstStatus
  cases d.firstTx txid with
  | none => rfl
  | some f =>
    simp only [Tables.firstTx, Stmt.apply]
    refine (congrArg _ (Table.first_update ?_)).trans ?_
    · exact fun _ => rfl
    · rw [Option.map_map]
      refine congrArg (Option.map · _) (funext fun t => ?_)
      simp only [Function.comp_apply]
      split <;> rfl

theorem mem_setReqs {p : ProvenTxReq → ProvenTxReqPartial} {r : ProvenTxReq} :
    r ∈ (d.setReqs txid p).provenTxReqs ↔
      ∃ r₀ ∈ d.provenTxReqs, r = if r₀.txid == txid then (p r₀).apply d.now r₀ else r₀ := by
  simp only [Tables.setReqs]
  exact Table.mem_update

theorem mem_retire {id : Nat} {o : Output} :
    o ∈ (d.retire id).outputs ↔ ∃ o₀ ∈ d.outputs, o =
      if o₀.transactionId == id then { o₀ with spendable := false, updatedAt := toSeconds d.now }
      else o₀ := by
  simp only [Tables.retire]
  exact Table.mem_update

theorem mem_releaseWhere {c : Output → Bool} {o : Output} :
    o ∈ (d.releaseWhere c).outputs ↔
      ∃ o₀ ∈ d.outputs, o = if c o₀ then release d.now o₀ else o₀ := by
  simp only [Tables.releaseWhere]
  exact Table.mem_update

theorem releaseWhere_congr {c c' : Output → Bool} (h : ∀ o ∈ d.outputs, c o = c' o) :
    d.releaseWhere c = d.releaseWhere c' := by
  refine congrArg (fun t => { d with outputs := t }) (Table.update_congr fun o ho => ?_)
  rw [h o ho]

end Effects

/-! ## The programs -/

variable {s : Store} {E : Store → Prop}

theorem wp_setFirstStatus {txid : String} {status : TransactionStatus} {Q : Unit → Store → Prop}
    (hnone : s.firstTx txid = none → E s)
    (hsome : ∀ t, s.firstTx txid = some t →
      ∀ s' : Store, s'.toTables = s.toTables.setFirstStatus txid status → Q () s') :
    wp Stmt.exec (updateTransactionStatus txid status) Q E s := by
  refine wp_updateTransactionStatus hnone fun t ht s' hs' => hsome t ht s' ?_
  rw [hs']
  simp only [Tables.setFirstStatus, Tables.firstTx, ht]

/-- A loop that does what a statement does for each selected entry. -/
theorem wp_forM_selected {γ : Type} {xs : List γ} {c : γ → Bool} {g : γ → StorageProg Unit}
    {w : γ → Stmt} {Q : Unit → Store → Prop}
    (hg : ∀ x (s : Store) (Q : Unit → Store → Prop),
      (∀ s' : Store, s'.toTables = ((w x).apply s.toTables).2 → Q () s') → wp Stmt.exec (g x) Q E s)
    (h : ∀ s' : Store, s'.toTables =
      (xs.filter c).foldl (fun d x => ((w x).apply d).2) s.toTables → Q () s') :
    wp Stmt.exec (forM xs fun x => if c x then g x else pure ()) Q E s := by
  induction xs generalizing s with
  | nil => exact h s rfl
  | cons x xs ih =>
    rw [List.forM_cons, wp_bind]
    cases hc : c x with
    | false =>
      simp only [Bool.false_eq_true, if_false, wp_pure]
      refine ih fun s' hs' => h s' ?_
      rw [hs', List.filter_cons_of_neg (by simp [hc])]
    | true =>
      simp only [if_true]
      refine hg x s _ fun s₁ h₁ => ih fun s' hs' => h s' ?_
      rw [hs', List.filter_cons_of_pos hc, List.foldl_cons, h₁]

/-- A loop of plain statements whose failures would be ignored. -/
theorem wp_forM_ignored {γ : Type} {xs : List γ} {w : γ → Stmt} {Q : Unit → Store → Prop}
    (hw : ∀ x, (w x).Plain)
    (h : ∀ s' : Store, s'.toTables = xs.foldl (fun d x => ((w x).apply d).2) s.toTables → Q () s') :
    wp Stmt.exec (forM xs fun x => ignore (exec (w x))) Q E s := by
  have hall : wp Stmt.exec
      (forM xs fun x => if (fun _ => true) x then ignore (exec (w x)) else pure ()) Q E s :=
    wp_forM_selected (fun x _ _ => wp_ignore_plain (hw x)) fun s' hs' => h s' (by
      rw [hs', List.filter_true])
  simpa only [if_true] using hall

/-- Updating the requests of a txid one after another updates them at once. -/
theorem foldl_reqs (d : Tables) (txid : String) (p : ProvenTxReq → ProvenTxReqPartial) :
    (d.provenTxReqs.find (·.txid == txid)).foldl
      (fun d r => ((Stmt.updateProvenTxReq r.provenTxReqId (p r)).apply d).2) d =
      d.setReqs txid p := by
  have hfold : ∀ (xs : List ProvenTxReq) (d : Tables),
      xs.foldl (fun d r => ((Stmt.updateProvenTxReq r.provenTxReqId (p r)).apply d).2) d =
        { d with
          provenTxReqs := xs.foldl (fun t r => t.update (fun x => key x == key r)
            ((p r).apply d.now) fun _ => rfl) d.provenTxReqs } := by
    intro xs
    induction xs with
    | nil => exact fun _ => rfl
    | cons x xs ih =>
      exact fun d => ih ((Stmt.updateProvenTxReq x.provenTxReqId (p x)).apply d).2
  rw [hfold]
  exact congrArg (fun t => { d with provenTxReqs := t }) (Table.foldl_update_own _)

/-- A loop of updates over the requests of a txid. -/
theorem wp_forM_reqs {txid : String} {p : ProvenTxReq → ProvenTxReqPartial}
    {Q : Unit → Store → Prop} (hp : ∀ r, (p r).provenTxId = none)
    (h : ∀ s' : Store, s'.toTables = s.toTables.setReqs txid p → Q () s') :
    wp Stmt.exec (forM (s.provenTxReqs.find (·.txid == txid)) fun r =>
      exec' (.updateProvenTxReq r.provenTxReqId (p r))) Q E s :=
  wp_forM_plain (fun r _ => hp r) fun s' hs' => h s' (hs'.trans (foldl_reqs _ _ _))

/-- The outputs that a statement for each selected row releases. -/
theorem foldl_release (d : Tables) (c : Output → Bool) :
    (d.outputs.find c).foldl (fun d o =>
      ((Stmt.updateOutput o.outputId { spendable := some true, spentBy := some 0 }).apply d).2) d =
      d.releaseWhere c := by
  have hids := foldl_updateOutput d { spendable := some true, spentBy := some 0 }
    ((d.outputs.find c).map (·.outputId))
  rw [List.foldl_map] at hids
  rw [hids]
  refine congrArg (fun t => { d with outputs := t }) (Table.update_congr fun o ho => ?_)
  rw [show ((d.outputs.find c).map (·.outputId)).contains o.outputId = c o from
    Table.contains_key_find ho]
  rfl

end WalletToolbox.Storage

namespace WalletToolbox.Signer

open WalletToolbox.Lib WalletToolbox.Storage
open WalletToolbox.Lib.Prog hiding pure exec

variable {s : Store} {E : Store → Prop}

theorem wp_applySuccessOrOrphanOutcome {txid : String} {outcome : BroadcastOutcome}
    {Q : Unit → Store → Prop}
    (h : ∀ s' : Store, s'.toTables =
      (s.toTables.setFirstStatus txid (if outcome.isOrphan then .sending else .unproven)).setReqs txid
        (fun _ => { status := some (if outcome.isOrphan then .sending else .unmined) }) → Q () s') :
    wp Stmt.exec (applySuccessOrOrphanOutcome txid outcome) Q E s := by
  unfold applySuccessOrOrphanOutcome
  have hreqs : ∀ s₁ : Store, s₁.toTables =
      s.toTables.setFirstStatus txid (if outcome.isOrphan then .sending else .unproven) →
      wp Stmt.exec (forM (s₁.provenTxReqs.find (·.txid == txid)) fun req : ProvenTxReq =>
        ignore (exec (.updateProvenTxReq req.provenTxReqId
          { status := some (if outcome.isOrphan then .sending else .unmined) }))) Q E s₁ := by
    intro s₁ h₁
    refine wp_forM_ignored (fun _ => by exact rfl) fun s' hs' => h s' ?_
    rw [hs', foldl_reqs, h₁]
  rw [wp_bind]
  refine wp_ignore (wp_setFirstStatus (fun hnone => ?_) fun t ht s₁ h₁ => hreqs s₁ h₁)
  exact hreqs s (by simp only [Tables.setFirstStatus, hnone])

/-- What a service error does to the requests of its txid. -/
def serviceErrorReq (r : ProvenTxReq) : ProvenTxReqPartial :=
  { status := some .sending, attempts := some (saturatingSucc r.attempts) }

/-- The outcome is an error when no transaction has the txid; its effect is the same formula. -/
theorem wp_applyServiceErrorOutcome {txid : String} {Q : Unit → Store → Prop}
    (h : ∀ s' : Store, s'.toTables =
      (s.toTables.setReqs txid serviceErrorReq).setFirstStatus txid .sending → Q () s')
    (hE : ∀ s' : Store, s'.toTables =
      (s.toTables.setReqs txid serviceErrorReq).setFirstStatus txid .sending → E s') :
    wp Stmt.exec (applyServiceErrorOutcome txid) Q E s := by
  unfold applyServiceErrorOutcome
  rw [wp_bind, wp_ask, wp_bind]
  refine wp_forM_reqs (fun _ => rfl) fun s₁ h₁ => ?_
  refine wp_setFirstStatus (fun hnone => hE s₁ ?_) fun t ht s' hs' => h s' (by rw [hs', h₁]; rfl)
  have hnone' : (s.toTables.setReqs txid serviceErrorReq).firstTx txid = none := by
    rw [← hnone, h₁]
    rfl
  simp only [Tables.setFirstStatus, hnone', h₁]
  rfl

/-- The rows that a permanent failure releases, seen after it retired the outputs of the failed
transaction: all its inputs, or for a double spend those that the chain reports as unspent. -/
def failureReleases (services : Services) (s : Store) (doubleSpend : Bool) (id : Nat) (o : Output) :
    Bool :=
  o.spentBy == some id && if doubleSpend then utxoVerified services s o else !o.spendable

/-- The effect of a permanent failure of the transaction with the id, on the tables it found. -/
def permanentFailure (services : Services) (s : Store) (txid : String) (doubleSpend : Bool)
    (id : Nat) : Tables :=
  (((s.toTables.setFirstStatus txid .failed).setReqs txid
    (fun _ => { status := some (if doubleSpend then .doubleSpend else .invalid) })).retire
      id).releaseWhere (failureReleases services s doubleSpend id)

/-- The outputs after a permanent failure: released, retired, or as they were. Without a double
spend no claim of the failed transaction is left on a row that is not spendable. -/
theorem mem_permanentFailure {services : Services} {txid : String} {doubleSpend : Bool} {id : Nat}
    {o' : Output} (h : o' ∈ (permanentFailure services s txid doubleSpend id).outputs) :
    ∃ o ∈ s.outputs,
      (o.spentBy = some id ∧ (doubleSpend = true → utxoVerified services s o = true) ∧
        ∃ now, o' = release now o) ∨
      ((doubleSpend = false → o.spentBy = some id → o.spendable = true) ∧
        ((o.transactionId = id ∧ (doubleSpend = false → o.spentBy ≠ some id) ∧
          ∃ stamp, o' = { o with spendable := false, updatedAt := stamp }) ∨
        (o.transactionId ≠ id ∧ o' = o))) := by
  unfold permanentFailure at h
  generalize (if doubleSpend = true then ProvenTxReqStatus.doubleSpend else .invalid) = status at h
  obtain ⟨o₁, h₁, rfl⟩ := mem_releaseWhere.mp h
  obtain ⟨o, ho, ho₁⟩ := mem_retire.mp h₁
  refine ⟨o, setFirstStatus_outputs ▸ ho, ?_⟩
  by_cases hown : o.transactionId = id
  · rw [if_pos (beq_iff_eq.mpr hown)] at ho₁
    subst ho₁
    split
    · rename_i hrel
      simp only [failureReleases, Bool.and_eq_true, beq_iff_eq] at hrel
      refine .inl ⟨hrel.1, fun hds => ?_, _, rfl⟩
      rw [if_pos hds] at hrel
      exact hrel.2
    · rename_i hrel
      have hnot : doubleSpend = false → o.spentBy ≠ some id := by
        rintro rfl hclaim
        exact hrel (by simp [failureReleases, hclaim])
      exact .inr ⟨fun hds hclaim => absurd hclaim (hnot hds), .inl ⟨hown, hnot, _, rfl⟩⟩
  · rw [if_neg (by simpa using hown)] at ho₁
    subst ho₁
    split
    · rename_i hrel
      simp only [failureReleases, Bool.and_eq_true, beq_iff_eq] at hrel
      exact .inl ⟨hrel.1, fun hds => by simpa only [hds, if_true] using hrel.2, _, rfl⟩
    · rename_i hrel
      refine .inr ⟨fun hds hclaim => ?_, .inr ⟨hown, rfl⟩⟩
      subst hds
      by_contra hspendable
      exact hrel (by simp [failureReleases, hclaim, hspendable])

/-- The database transaction of a permanent failure up to the release. -/
theorem wp_failPermanently {txid : String} {f : Transaction} {reqStatus : ProvenTxReqStatus}
    {safeIds : Option (List Nat)} {Q : Unit → Store → Prop} (hf : s.firstTx txid = some f)
    (h : ∀ s₁ : Store, s₁.toTables =
        ((s.toTables.setFirstStatus txid .failed).setReqs txid
          (fun _ => { status := some reqStatus })).retire f.transactionId →
      ∀ ids, ids = safeIds.getD ((s₁.outputs.find fun o =>
          o.spentBy == some f.transactionId && o.spendable == false).map (·.outputId)) →
      ∀ s' : Store, s'.toTables =
        ((Stmt.releaseInputsSpentBy ids f.transactionId).apply s₁.toTables).2 → Q () s') :
    wp Stmt.exec (failPermanently txid f.transactionId reqStatus safeIds) Q E s := by
  unfold failPermanently
  rw [wp_bind]
  refine wp_setFirstStatus (fun hnone => ?_) fun t ht s₁ h₁ => ?_
  · rw [hf] at hnone
    cases hnone
  rw [wp_bind, wp_ask, wp_bind]
  refine wp_forM_reqs (fun _ => rfl) fun s₂ h₂ => ?_
  rw [wp_bind, wp_ask, wp_bind]
  refine wp_forM_plain (fun _ _ => ⟨rfl, .inr (.inl rfl)⟩) fun s₃ h₃ => ?_
  have hretire : s₃.toTables = ((s.toTables.setFirstStatus txid .failed).setReqs txid
      (fun _ => { status := some reqStatus })).retire f.transactionId := by
    have hids := foldl_updateOutput s₂.toTables { spendable := some false }
      ((s₂.outputs.find (·.transactionId == f.transactionId)).map (·.outputId))
    rw [List.foldl_map] at hids
    rw [h₃, hids, ← h₁, ← h₂]
    refine congrArg (fun t => { s₂.toTables with outputs := t }) (Table.update_congr fun o ho => ?_)
    rw [show ((s₂.outputs.find (·.transactionId == f.transactionId)).map (·.outputId)).contains
      o.outputId = (o.transactionId == f.transactionId) from Table.contains_key_find ho]
  cases safeIds with
  | some ids =>
    simp only [wp_bind, wp_pure]
    exact wp_releaseInputsSpentBy fun _ s' hs' => h s₃ hretire ids rfl s' hs'
  | none =>
    simp only [wp_bind, wp_ask, wp_pure]
    exact wp_releaseInputsSpentBy fun _ s' hs' => h s₃ hretire _ rfl s' hs'

/-- Retiring outputs changes nothing that the release of inputs looks at. -/
theorem retired_inputs {d : Tables} {id : Nat} {o : Output} (h : o ∈ (d.retire id).outputs) :
    ∃ o₀ ∈ d.outputs, o.outputId = o₀.outputId ∧ o.spentBy = o₀.spentBy ∧
      (∀ services s, utxoVerified services s o = utxoVerified services s o₀) := by
  obtain ⟨o₀, h₀, rfl⟩ := mem_retire.mp h
  refine ⟨o₀, h₀, ?_⟩
  split <;> exact ⟨rfl, rfl, fun _ _ => rfl⟩

/-- The inputs that were verified before the transaction are those that a double spend releases. -/
theorem releasable_verified {services : Services} {txid : String} {reqStatus : ProvenTxReqStatus}
    {id : Nat} {o : Output}
    (ho : o ∈ (((s.toTables.setFirstStatus txid .failed).setReqs txid
      (fun _ => { status := some reqStatus })).retire id).outputs) :
    releasable (((s.outputs.find (·.spentBy == some id)).filter (utxoVerified services s)).map
      (·.outputId)) id o = failureReleases services s true id o := by
  obtain ⟨o₀, h₀, hid, hspent, hverified⟩ := retired_inputs ho
  have ho₀ : o₀ ∈ s.outputs := by
    have hmem : o₀ ∈ (s.toTables.setFirstStatus txid .failed).outputs := h₀
    rwa [setFirstStatus_outputs] at hmem
  have hkey : (((s.outputs.find (·.spentBy == some id)).filter (utxoVerified services s)).map
      (·.outputId)).contains o₀.outputId =
      (utxoVerified services s o₀ && o₀.spentBy == some id) := by
    rw [show (s.outputs.find (·.spentBy == some id)).filter (utxoVerified services s) =
      s.outputs.find fun o => utxoVerified services s o && o.spentBy == some id from
        List.filter_filter ..]
    exact Table.contains_key_find ho₀
  unfold releasable failureReleases
  rw [hid, hkey, hspent, hverified]
  cases hb : o₀.spentBy == some id <;> simp

/-- A permanent failure has its effect, when a transaction has the txid. -/
theorem wp_applyPermanentFailure {services : Services} {txid : String} {doubleSpend : Bool}
    {Q : Unit → Store → Prop} (hnone : s.firstTx txid = none → Q () s)
    (hsome : ∀ f, s.firstTx txid = some f → ∀ s' : Store,
      s'.toTables = permanentFailure services s txid doubleSpend f.transactionId → Q () s') :
    wp Stmt.exec (applyPermanentFailure services txid doubleSpend) Q E s := by
  unfold applyPermanentFailure
  rw [wp_bind, wp_ask]
  cases hf : s.firstTx txid with
  | none =>
    rw [show s.transactions.first (·.txid == some txid) = none from hf]
    exact hnone hf
  | some f =>
    rw [show s.transactions.first (·.txid == some txid) = some f from hf]
    cases doubleSpend with
    | true =>
      simp only [if_true, wp_bind, utxoVerifiedInputIds]
      rw [wp_ask, wp_atomically]
      refine wp_failPermanently hf fun s₁ h₁ ids hids s' hs' => hsome f hf s' (hs'.trans ?_)
      simp only [permanentFailure, if_true]
      rw [← h₁]
      refine congrArg (fun t => { s₁.toTables with outputs := t }) (Table.update_congr fun o ho => ?_)
      rw [h₁] at ho
      rw [hids, Option.getD_some, releasable_verified ho]
    | false =>
      simp only [Bool.false_eq_true, if_false]
      rw [wp_atomically]
      refine wp_failPermanently hf fun s₁ h₁ ids hids s' hs' => hsome f hf s' (hs'.trans ?_)
      simp only [permanentFailure, Bool.false_eq_true, if_false]
      rw [← h₁]
      refine congrArg (fun t => { s₁.toTables with outputs := t }) (Table.update_congr fun o ho => ?_)
      have hkey : ids.contains o.outputId =
          (o.spentBy == some f.transactionId && o.spendable == false) := by
        rw [hids, Option.getD_none]
        exact Table.contains_key_find ho
      have hsel : releasable ids f.transactionId o =
          failureReleases services s false f.transactionId o := by
        unfold releasable failureReleases
        rw [hkey]
        cases hb : o.spentBy == some f.transactionId <;> cases o.spendable <;> simp
      rw [hsel]

/-- What `handle_permanent_broadcast_failure` does, by the outcome that reconciliation leaves. -/
theorem wp_handlePermanentBroadcastFailure {services : Services} {txid : String}
    {outcome : BroadcastOutcome} {Q : Store → Prop}
    (h : match reconcileTxStatus services txid outcome with
      | .success | .orphanMempool _ => Q s
      | .serviceError _ => ∀ s' : Store, s'.toTables =
          (s.toTables.setReqs txid serviceErrorReq).setFirstStatus txid .sending → Q s'
      | .doubleSpend _ _ => (s.firstTx txid = none → Q s) ∧ ∀ f, s.firstTx txid = some f →
          ∀ s' : Store, s'.toTables = permanentFailure services s txid true f.transactionId → Q s'
      | .invalidTx _ => (s.firstTx txid = none → Q s) ∧ ∀ f, s.firstTx txid = some f →
          ∀ s' : Store, s'.toTables = permanentFailure services s txid false f.transactionId → Q s') :
    wp Stmt.exec (handlePermanentBroadcastFailure services txid outcome) (fun _ => Q) Q s := by
  unfold handlePermanentBroadcastFailure
  cases hr : reconcileTxStatus services txid outcome with
  | success =>
    simp only [hr] at h
    exact h
  | orphanMempool details =>
    simp only [hr] at h
    exact h
  | serviceError details =>
    simp only [hr] at h ⊢
    rw [wp_bind]
    exact wp_applyServiceErrorOutcome h h
  | doubleSpend competing details =>
    simp only [hr] at h ⊢
    rw [wp_bind]
    exact wp_applyPermanentFailure h.1 h.2
  | invalidTx details =>
    simp only [hr] at h ⊢
    rw [wp_bind]
    exact wp_applyPermanentFailure h.1 h.2

/-- What a signer does about the answers to a broadcast. -/
inductive SignerMove where
  | nothing
  | accept (orphan : Bool)
  | retry
  | fail (doubleSpend : Bool)
deriving DecidableEq

/-- The move: a rejection is first reconciled with the chain. -/
def signerMove (services : Services) (txid : String) (results : List PostBeefResult) : SignerMove :=
  match classifyBroadcastResults results with
  | .success => .accept false
  | .orphanMempool _ => .accept true
  | .serviceError _ => .retry
  | .doubleSpend competing details =>
    match reconcileTxStatus services txid (.doubleSpend competing details) with
    | .serviceError _ => .retry
    | .doubleSpend _ _ => .fail true
    | .invalidTx _ => .fail false
    | _ => .nothing
  | .invalidTx details =>
    match reconcileTxStatus services txid (.invalidTx details) with
    | .serviceError _ => .retry
    | .doubleSpend _ _ => .fail true
    | .invalidTx _ => .fail false
    | _ => .nothing

/-- The effect of a move. -/
def signerEffect (services : Services) (s : Store) (txid : String) : SignerMove → Tables
  | .nothing => s.toTables
  | .accept orphan =>
    (s.toTables.setFirstStatus txid (if orphan then .sending else .unproven)).setReqs txid
      (fun _ => { status := some (if orphan then .sending else .unmined) })
  | .retry => (s.toTables.setReqs txid serviceErrorReq).setFirstStatus txid .sending
  | .fail doubleSpend =>
    match s.firstTx txid with
    | none => s.toTables
    | some f => permanentFailure services s txid doubleSpend f.transactionId

theorem wp_applyBroadcast {services : Services} {txid : String} {results : List PostBeefResult}
    {Q : Store → Prop}
    (h : ∀ s' : Store, s'.toTables =
      signerEffect services s txid (signerMove services txid results) → Q s') :
    wp Stmt.exec (applyBroadcast services txid results) (fun _ => Q) Q s := by
  have hpermanent : ∀ outcome, (∀ s' : Store, s'.toTables = signerEffect services s txid
      (match reconcileTxStatus services txid outcome with
        | .serviceError _ => .retry
        | .doubleSpend _ _ => .fail true
        | .invalidTx _ => .fail false
        | _ => .nothing) → Q s') →
      wp Stmt.exec (ignore (handlePermanentBroadcastFailure services txid outcome)) (fun _ => Q) Q s := by
    intro outcome h
    refine wp_ignore (wp_handlePermanentBroadcastFailure ?_)
    cases hr : reconcileTxStatus services txid outcome <;> simp only [hr] at h ⊢
    · exact h s rfl
    · exact h
    · exact ⟨fun hnone => h s (by simp only [signerEffect, hnone]),
        fun f hf s' hs' => h s' (by simp only [signerEffect, hf]; exact hs')⟩
    · exact ⟨fun hnone => h s (by simp only [signerEffect, hnone]),
        fun f hf s' hs' => h s' (by simp only [signerEffect, hf]; exact hs')⟩
    · exact h s rfl
  unfold applyBroadcast
  unfold signerMove at h
  cases hc : classifyBroadcastResults results with
  | success =>
    simp only [hc] at h ⊢
    exact wp_ignore (wp_applySuccessOrOrphanOutcome h)
  | orphanMempool details =>
    simp only [hc] at h ⊢
    exact wp_ignore (wp_applySuccessOrOrphanOutcome h)
  | serviceError details =>
    simp only [hc] at h ⊢
    exact wp_ignore (wp_applyServiceErrorOutcome h h)
  | doubleSpend competing details =>
    simp only [hc] at h ⊢
    exact hpermanent _ h
  | invalidTx details =>
    simp only [hc] at h ⊢
    exact hpermanent _ h

end WalletToolbox.Signer

namespace WalletToolbox.Monitor

open WalletToolbox.Lib WalletToolbox.Storage
open WalletToolbox.Lib.Prog hiding pure exec

variable {s : Store} {E : Store → Prop}

/-- The inputs of a transaction that the monitor releases after a failed broadcast: all of them,
or for a double spend those that the chain reports as unspent. -/
def verdictReleases (services : Services) (reqStatus : ProvenTxReqStatus) (id : Nat) (o : Output) :
    Bool :=
  o.spentBy == some id && (reqStatus != .doubleSpend || reportedUnspent services o)

theorem wp_restoreUnspentInputsOnly {services : Services} {id : Nat} {Q : Unit → Store → Prop}
    (h : ∀ s' : Store, s'.toTables = s.toTables.releaseWhere (fun o =>
      o.spentBy == some id && reportedUnspent services o) → Q () s') :
    wp Stmt.exec (restoreUnspentInputsOnly services id) Q E s := by
  unfold restoreUnspentInputsOnly
  rw [wp_bind, wp_ask]
  refine wp_forM_selected (fun _ _ _ => wp_ignore_plain (by exact ⟨rfl, .inl rfl⟩)) fun s' hs' =>
    h s' (hs'.trans ?_)
  rw [show (s.outputs.find (·.spentBy == some id)).filter (reportedUnspent services) =
    s.outputs.find fun o => o.spentBy == some id && reportedUnspent services o from
      (List.filter_filter ..).trans (List.filter_congr fun o _ => Bool.and_comm _ _)]
  exact foldl_release s.toTables _

theorem wp_restoreInputs {services : Services} {txid : String} {reqStatus : ProvenTxReqStatus}
    {Q : Unit → Store → Prop} (hnone : s.firstTx txid = none → Q () s)
    (hsome : ∀ f, s.firstTx txid = some f → ∀ s' : Store, s'.toTables =
      s.toTables.releaseWhere (verdictReleases services reqStatus f.transactionId) → Q () s') :
    wp Stmt.exec (restoreInputs services txid reqStatus) Q E s := by
  unfold restoreInputs
  rw [wp_bind, wp_ask]
  cases hf : s.firstTx txid with
  | none =>
    rw [show s.transactions.first (·.txid == some txid) = none from hf]
    exact hnone hf
  | some f =>
    rw [show s.transactions.first (·.txid == some txid) = some f from hf]
    by_cases hds : reqStatus = .doubleSpend
    · simp only [hds, if_true]
      refine wp_restoreUnspentInputsOnly fun s' hs' => hsome f hf s' (hs'.trans ?_)
      exact releaseWhere_congr fun o _ => by simp [verdictReleases, hds]
    · simp only [hds, if_false]
      refine wp_ignore (wp_restoreConsumedInputs fun _ s' hs' => hsome f hf s' (hs'.trans ?_))
      exact releaseWhere_congr fun o _ => by simp [verdictReleases, hds]

/-- What a verdict writes to the request it is about. -/
def verdictReq (req : ProvenTxReq) (v : ProvenTxReqStatus × PostReqStatus) : ProvenTxReqPartial :=
  { status := some v.1, attempts := if v.2 = .serviceError then some (req.attempts + 1) else none }

/-- The effect of a verdict: the request, the first transaction with the txid and its inputs. -/
def verdictEffect (services : Services) (d : Tables) (req : ProvenTxReq)
    (v : ProvenTxReqStatus × PostReqStatus) : Tables :=
  let d₁ := ((Stmt.updateProvenTxReq req.provenTxReqId (verdictReq req v)).apply d).2
  match cascadeStatus v.1, d.firstTx req.txid with
  | some .failed, some f =>
    (d₁.setFirstStatus req.txid .failed).releaseWhere (verdictReleases services v.1 f.transactionId)
  | some status, _ => d₁.setFirstStatus req.txid status
  | none, _ => d₁

theorem wp_applyVerdict {services : Services} {req : ProvenTxReq}
    {v : ProvenTxReqStatus × PostReqStatus} {Q : Store → Prop}
    (h : ∀ s' : Store, s'.toTables = verdictEffect services s.toTables req v → Q s') :
    wp Stmt.exec (applyVerdict services req v.1 v.2) (fun _ => Q) E s := by
  unfold applyVerdict
  rw [wp_bind]
  refine wp_ignore_plain (by exact rfl) fun s₁ h₁ => ?_
  have hfirst : s₁.firstTx req.txid = s.firstTx req.txid := by rw [h₁]; rfl
  cases hc : cascadeStatus v.1 with
  | none =>
    refine h s₁ ?_
    simp only [verdictEffect, hc]
    exact h₁
  | some status =>
    simp only [wp_bind]
    refine wp_attempt (wp_setFirstStatus (fun hnone _ => h s₁ ?_) fun f hf s₂ h₂ => ?_)
    · rw [hfirst] at hnone
      have hnone' : (((Stmt.updateProvenTxReq req.provenTxReqId (verdictReq req v)).apply
          s.toTables).2).firstTx req.txid = none := hnone
      cases status <;>
        simp only [verdictEffect, hc, hnone, Tables.setFirstStatus, hnone'] <;> exact h₁
    · rw [hfirst] at hf
      have hs₂ : s₂.toTables = (((Stmt.updateProvenTxReq req.provenTxReqId
          (verdictReq req v)).apply s.toTables).2).setFirstStatus req.txid status := by
        rw [h₂, h₁]
        rfl
      by_cases hfailed : status = .failed
      · subst hfailed
        have hmap : (s₂.firstTx req.txid).map (·.transactionId) = some f.transactionId := by
          rw [h₂, firstTx_setFirstStatus, hfirst, hf, Option.map_some]
        simp only [if_true, wp_bind]
        refine wp_restoreInputs (fun hnone => ?_) fun f' hf' s' hs' => ?_
        · rw [hnone] at hmap
          cases hmap
        · rw [hf', Option.map_some, Option.some.injEq] at hmap
          refine h s' ?_
          simp only [verdictEffect, hc, hf]
          rw [hs', hs₂, hmap]
      · simp only [hfailed, if_false, wp_pure]
        refine h s₂ ?_
        cases status <;> first | exact absurd rfl hfailed | (simp only [verdictEffect, hc]; exact hs₂)

/-- What becomes of a request that the monitor takes up. -/
inductive Posting where
  | skipped
  | unusable
  | missingSource
  | posted (v : ProvenTxReqStatus × PostReqStatus)

/-- A sent request is skipped, one whose BEEF cannot be built is given up, and the others get the
verdict of the providers. -/
def posting (sdk : Sdk) (sources : SourceBeefs) (services : Services) (s : Store)
    (req : ProvenTxReq) : Posting :=
  if req.status = .completed ∨ req.status = .unmined then .skipped
  else if req.rawTx.isEmpty then .unusable
  else
    match rebuildBeef sdk sources s req with
    | .invalid => .unusable
    | .missingSource => .missingSource
    | .ready bytes => .posted (verdict (countResults req.txid (services.postBeef bytes [req.txid])))

/-- The effect of taking up a request. -/
def postingEffect (services : Services) (d : Tables) (req : ProvenTxReq) : Posting → Tables
  | .skipped | .missingSource => d
  | .unusable => ((Stmt.updateProvenTxReq req.provenTxReqId { status := some .invalid }).apply d).2
  | .posted v => verdictEffect services d req v

theorem wp_attemptToPostReq {sdk : Sdk} {sources : SourceBeefs} {services : Services}
    {req : ProvenTxReq} {Q : Store → Prop}
    (h : ∀ s' : Store, s'.toTables = postingEffect services s.toTables req
      (posting sdk sources services s req) → Q s') :
    wp Stmt.exec (attemptToPostReq sdk sources services req) (fun _ => Q) E s := by
  have hinvalid : (∀ s' : Store, s'.toTables = postingEffect services s.toTables req .unusable →
      Q s') → wp Stmt.exec (markInvalid req) (fun _ => Q) E s := by
    intro h
    unfold markInvalid
    rw [wp_bind]
    exact wp_ignore_plain (by exact rfl) fun s' hs' => h s' hs'
  unfold attemptToPostReq
  unfold posting at h
  by_cases hsent : req.status = .completed ∨ req.status = .unmined
  · simp only [hsent, if_true] at h ⊢
    exact h s rfl
  · by_cases hempty : req.rawTx.isEmpty = true
    · simp only [hsent, hempty, if_true, if_false] at h ⊢
      exact hinvalid h
    · simp only [hsent, hempty, if_false, wp_bind, wp_ask, Bool.false_eq_true] at h ⊢
      cases hbeef : rebuildBeef sdk sources s req with
      | invalid =>
        simp only [hbeef] at h
        exact hinvalid h
      | missingSource =>
        simp only [hbeef] at h
        exact h s rfl
      | ready bytes =>
        simp only [hbeef] at h
        rw [wp_bind]
        exact wp_applyVerdict h

end WalletToolbox.Monitor
