import WalletToolbox.Lib.Wp
import WalletToolbox.Storage.Provider

/-! # What a statement does

An executed statement leaves the tables that `Stmt.apply` computes, writes one table only and
leaves the clock alone.
A `Plain` statement touches no column under a constraint, so the engine never refuses it. -/

namespace WalletToolbox.Storage

open WalletToolbox.Lib
open WalletToolbox.Lib.Prog hiding pure exec

/-- An executed statement answers and leaves what `apply` computes. -/
theorem exec_eq {w : Stmt} {s s' : Store} {n : Nat} (h : w.exec s = .ok (n, s')) :
    n = (w.apply s.toTables).1 ∧ s'.toTables = (w.apply s.toTables).2 := by
  simp only [Stmt.exec] at h
  split at h
  · split at h
    · cases h
      exact ⟨rfl, rfl⟩
    · cases h
  · cases h

/-- A statement whose result satisfies the constraints is executed. -/
theorem exec_of_constraints {w : Stmt} {s : Store} (hf : (w.apply s.toTables).2.ForeignKeys)
    (hu : (w.apply s.toTables).2.UniqueKeys) :
    w.exec s = .ok ((w.apply s.toTables).1, ⟨(w.apply s.toTables).2, hu, hf⟩) := by
  simp only [Stmt.exec, dif_pos hf, dif_pos hu]

/-! ## The table a statement writes -/

inductive TableName where
  | users | outputBaskets | transactions | outputs | provenTxs | provenTxReqs | txLabels
  | txLabelMaps | outputTags | outputTagMaps | certificates | certificateFields | commissions
  | syncStates
deriving DecidableEq

/-- The table a statement writes. -/
def Stmt.target : Stmt → TableName
  | .insertUser _ | .updateUser _ _ => .users
  | .insertOutputBasket _ | .updateOutputBasket _ _ => .outputBaskets
  | .insertTransaction _ | .updateTransaction _ _ => .transactions
  | .insertOutput _ | .updateOutput _ _ | .markInputsSpent _ _ _ | .releaseInputsSpentBy _ _ =>
    .outputs
  | .insertProvenTx _ | .updateProvenTx _ _ => .provenTxs
  | .insertProvenTxReq _ | .updateProvenTxReq _ _ => .provenTxReqs
  | .insertTxLabel _ | .updateTxLabel _ _ => .txLabels
  | .insertTxLabelMap _ | .updateTxLabelMap _ _ _ => .txLabelMaps
  | .insertOutputTag _ | .updateOutputTag _ _ => .outputTags
  | .insertOutputTagMap _ | .updateOutputTagMap _ _ _ => .outputTagMaps
  | .insertCertificate _ | .updateCertificate _ _ => .certificates
  | .insertCertificateField _ | .updateCertificateField _ _ _ => .certificateFields
  | .insertCommission _ | .updateCommission _ _ => .commissions
  | .insertSyncState _ | .updateSyncState _ _ => .syncStates

section Frame

variable {w : Stmt} {s s' : Store} {n : Nat}

theorem exec_now (h : w.exec s = .ok (n, s')) : s'.now = s.now := by
  rw [(exec_eq h).2]
  cases w <;> rfl

theorem exec_users (h : w.exec s = .ok (n, s')) (hw : w.target ≠ .users) : s'.users = s.users := by
  rw [(exec_eq h).2]
  cases w <;> first | rfl | exact absurd rfl hw

theorem exec_outputBaskets (h : w.exec s = .ok (n, s')) (hw : w.target ≠ .outputBaskets) :
    s'.outputBaskets = s.outputBaskets := by
  rw [(exec_eq h).2]
  cases w <;> first | rfl | exact absurd rfl hw

theorem exec_transactions (h : w.exec s = .ok (n, s')) (hw : w.target ≠ .transactions) :
    s'.transactions = s.transactions := by
  rw [(exec_eq h).2]
  cases w <;> first | rfl | exact absurd rfl hw

theorem exec_outputs (h : w.exec s = .ok (n, s')) (hw : w.target ≠ .outputs) :
    s'.outputs = s.outputs := by
  rw [(exec_eq h).2]
  cases w <;> first | rfl | exact absurd rfl hw

theorem exec_provenTxs (h : w.exec s = .ok (n, s')) (hw : w.target ≠ .provenTxs) :
    s'.provenTxs = s.provenTxs := by
  rw [(exec_eq h).2]
  cases w <;> first | rfl | exact absurd rfl hw

theorem exec_provenTxReqs (h : w.exec s = .ok (n, s')) (hw : w.target ≠ .provenTxReqs) :
    s'.provenTxReqs = s.provenTxReqs := by
  rw [(exec_eq h).2]
  cases w <;> first | rfl | exact absurd rfl hw

theorem exec_outputTagMaps (h : w.exec s = .ok (n, s')) (hw : w.target ≠ .outputTagMaps) :
    s'.outputTagMaps = s.outputTagMaps := by
  rw [(exec_eq h).2]
  cases w <;> first | rfl | exact absurd rfl hw

/-- A statement that writes none of the tables of transactions, outputs, proofs and requests. -/
def Stmt.OffCore (w : Stmt) : Prop :=
  w.target ≠ .transactions ∧ w.target ≠ .outputs ∧ w.target ≠ .provenTxs ∧ w.target ≠ .provenTxReqs

/-- The tables of transactions, outputs, proofs and requests are the same in both stores. -/
structure SameCore (s s' : Store) : Prop where
  transactions : s'.transactions = s.transactions
  outputs : s'.outputs = s.outputs
  provenTxs : s'.provenTxs = s.provenTxs
  provenTxReqs : s'.provenTxReqs = s.provenTxReqs

theorem SameCore.refl (s : Store) : SameCore s s := ⟨rfl, rfl, rfl, rfl⟩

theorem SameCore.trans {s₁ s₂ s₃ : Store} (h : SameCore s₁ s₂) (h' : SameCore s₂ s₃) :
    SameCore s₁ s₃ :=
  ⟨h'.transactions.trans h.transactions, h'.outputs.trans h.outputs,
    h'.provenTxs.trans h.provenTxs, h'.provenTxReqs.trans h.provenTxReqs⟩

theorem Stmt.OffCore.sameCore (hw : w.OffCore) (h : w.exec s = .ok (n, s')) : SameCore s s' :=
  ⟨exec_transactions h hw.1, exec_outputs h hw.2.1, exec_provenTxs h hw.2.2.1,
    exec_provenTxReqs h hw.2.2.2⟩

end Frame

/-- A program that stays off the core tables leaves them as they are. -/
theorem wp_offCore {α : Type} {p : StorageProg α} (hp : p.Emits Stmt.OffCore) {s : Store}
    {Q : α → Store → Prop} {E : Store → Prop} (hQ : ∀ a s', SameCore s s' → Q a s')
    (hE : ∀ s', SameCore s s' → E s') : wp Stmt.exec p Q E s := by
  have h : wp Stmt.exec p (fun _ => SameCore s) (SameCore s) s :=
    hp.wp (fun w s₁ n s₂ hw h₁ h₂ => h₁.trans (hw.sameCore h₂)) (SameCore.refl s)
  exact wp_mono h hQ hE

/-! ## The rows after a statement

One equivalence for each statement that writes a core table. -/

section Rows

variable {d : Tables}

theorem mem_insertTransaction {r t : Transaction} :
    t ∈ ((Stmt.insertTransaction r).apply d).2.transactions ↔
      t ∈ d.transactions ∨ t = r.stored (d.transactions.lastId + 1) := by
  simp only [Stmt.apply]
  exact Table.mem_insert

theorem mem_updateTransaction {id : Nat} {p : TransactionPartial} {t : Transaction} :
    t ∈ ((Stmt.updateTransaction id p).apply d).2.transactions ↔
      ∃ t₀ ∈ d.transactions, t = if t₀.transactionId = id then p.apply d.now t₀ else t₀ := by
  simp only [Stmt.apply]
  refine Table.mem_update.trans ?_
  simp only [beq_iff_eq]

theorem mem_insertOutput {r o : Output} :
    o ∈ ((Stmt.insertOutput r).apply d).2.outputs ↔
      o ∈ d.outputs ∨ o = r.stored (d.outputs.lastId + 1) := by
  simp only [Stmt.apply]
  exact Table.mem_insert

theorem mem_updateOutput {id : Nat} {p : OutputPartial} {o : Output} :
    o ∈ ((Stmt.updateOutput id p).apply d).2.outputs ↔
      ∃ o₀ ∈ d.outputs, o = if o₀.outputId = id then p.apply d.now o₀ else o₀ := by
  simp only [Stmt.apply]
  refine Table.mem_update.trans ?_
  simp only [beq_iff_eq]

theorem mem_markInputsSpent {ids : List Nat} {t u : Nat} {o : Output} :
    o ∈ ((Stmt.markInputsSpent ids t u).apply d).2.outputs ↔
      ∃ o₀ ∈ d.outputs, o = if claimable ids u o₀ then claim d.now t o₀ else o₀ := by
  simp only [Stmt.apply]
  exact Table.mem_update

theorem mem_insertProvenTx {r p : ProvenTx} :
    p ∈ ((Stmt.insertProvenTx r).apply d).2.provenTxs ↔
      p ∈ d.provenTxs ∨ p = r.stored (d.provenTxs.lastId + 1) := by
  simp only [Stmt.apply]
  exact Table.mem_insert

theorem mem_updateProvenTx {id : Nat} {u : ProvenTxPartial} {p : ProvenTx} :
    p ∈ ((Stmt.updateProvenTx id u).apply d).2.provenTxs ↔
      ∃ p₀ ∈ d.provenTxs, p = if p₀.provenTxId = id then u.apply d.now p₀ else p₀ := by
  simp only [Stmt.apply]
  refine Table.mem_update.trans ?_
  simp only [beq_iff_eq]

theorem mem_insertProvenTxReq {r q : ProvenTxReq} :
    q ∈ ((Stmt.insertProvenTxReq r).apply d).2.provenTxReqs ↔
      q ∈ d.provenTxReqs ∨ q = r.stored (d.provenTxReqs.lastId + 1) := by
  simp only [Stmt.apply]
  exact Table.mem_insert

theorem mem_updateProvenTxReq {id : Nat} {p : ProvenTxReqPartial} {q : ProvenTxReq} :
    q ∈ ((Stmt.updateProvenTxReq id p).apply d).2.provenTxReqs ↔
      ∃ q₀ ∈ d.provenTxReqs, q = if q₀.provenTxReqId = id then p.apply d.now q₀ else q₀ := by
  simp only [Stmt.apply]
  refine Table.mem_update.trans ?_
  simp only [beq_iff_eq]

end Rows

/-! ## Statements that are never refused -/

/-- An update that changes no column under a `UNIQUE` or `REFERENCES` constraint, other than to
clear it. -/
def Stmt.Plain : Stmt → Prop
  | .updateUser _ _ | .updateSyncState _ _ => True
  | .updateTransaction _ p => p.provenTxId = none
  | .updateProvenTxReq _ p => p.provenTxId = none
  | .updateOutput _ p =>
    p.basketId = none ∧ (p.spendable = some true ∨ p.spentBy = none ∨ p.spentBy = some 0)
  | .releaseInputsSpentBy _ _ => True
  | _ => False

section Plain

variable {d : Tables}

theorem unique_transactions_update (hu : d.UniqueKeys) {p : Transaction → Bool}
    {f : Transaction → Transaction} {hk : ∀ r, key (f r) = key r}
    (href : ∀ r, (f r).reference = r.reference) :
    ({ d with transactions := d.transactions.update p f hk } : Tables).UniqueKeys :=
  { hu with transactions := hu.transactions.update hk href }

/-- A rewriting of transactions that keeps or clears the proof, or links one that is there, keeps the
constraints. -/
theorem foreign_transactions_update (hf : d.ForeignKeys) {p : Transaction → Bool}
    {f : Transaction → Transaction} {hk : ∀ r, key (f r) = key r}
    (huser : ∀ r, (f r).userId = r.userId)
    (hproven : ∀ r, ∀ i ∈ (f r).provenTxId, i ∈ r.provenTxId ∨ ∃ q ∈ d.provenTxs.rows, key q = i) :
    ({ d with transactions := d.transactions.update p f hk } : Tables).ForeignKeys :=
  { hf with
    transactionUser := hf.transactionUser.update hk huser
    transactionProvenTx := hf.transactionProvenTx.update hk fun r _ _ i hi => hproven r i hi
    outputTransaction := hf.outputTransaction.update_target hk
    outputSpentBy := hf.outputSpentBy.update_target hk
    labelMapTransaction := hf.labelMapTransaction.update_target hk
    commissionTransaction := hf.commissionTransaction.update_target hk }

theorem unique_provenTxReqs_update (hu : d.UniqueKeys) {p : ProvenTxReq → Bool}
    {f : ProvenTxReq → ProvenTxReq} {hk : ∀ r, key (f r) = key r}
    (htxid : ∀ r, (f r).txid = r.txid) :
    ({ d with provenTxReqs := d.provenTxReqs.update p f hk } : Tables).UniqueKeys :=
  { hu with provenTxReqs := hu.provenTxReqs.update hk htxid }

theorem foreign_provenTxReqs_update (hf : d.ForeignKeys) {p : ProvenTxReq → Bool}
    {f : ProvenTxReq → ProvenTxReq} {hk : ∀ r, key (f r) = key r}
    (hproven : ∀ r, ∀ i ∈ (f r).provenTxId, i ∈ r.provenTxId ∨ ∃ q ∈ d.provenTxs.rows, key q = i) :
    ({ d with provenTxReqs := d.provenTxReqs.update p f hk } : Tables).ForeignKeys :=
  { hf with reqProvenTx := hf.reqProvenTx.update hk fun r _ _ i hi => hproven r i hi }

/-- A rewriting of outputs that keeps or clears the nullable ids, or claims for a transaction that
is there, keeps the constraints. -/
theorem foreign_outputs_update (hf : d.ForeignKeys) {p : Output → Bool} {f : Output → Output}
    {hk : ∀ r, key (f r) = key r} (huser : ∀ r, (f r).userId = r.userId)
    (htx : ∀ r, (f r).transactionId = r.transactionId)
    (hbasket : ∀ r, ∀ i ∈ (f r).basketId, i ∈ r.basketId)
    (hspent : ∀ r, ∀ i ∈ (f r).spentBy, i ∈ r.spentBy ∨ ∃ t ∈ d.transactions.rows, key t = i) :
    ({ d with outputs := d.outputs.update p f hk } : Tables).ForeignKeys :=
  { hf with
    outputUser := hf.outputUser.update hk huser
    outputTransaction := hf.outputTransaction.update hk htx
    outputBasket := hf.outputBasket.update hk fun r _ _ i hi => .inl (hbasket r i hi)
    outputSpentBy := hf.outputSpentBy.update hk fun r _ _ i hi => hspent r i hi
    tagMapOutput := hf.tagMapOutput.update_target hk }

theorem unique_outputs_update (hu : d.UniqueKeys) {p : Output → Bool} {f : Output → Output}
    {hk : ∀ r, key (f r) = key r} (huser : ∀ r, (f r).userId = r.userId)
    (htx : ∀ r, (f r).transactionId = r.transactionId) (hvout : ∀ r, (f r).vout = r.vout) :
    ({ d with outputs := d.outputs.update p f hk } : Tables).UniqueKeys :=
  { hu with outputs := hu.outputs.update hk fun r => by rw [huser, htx, hvout] }

/-- The engine executes a plain statement. -/
theorem Stmt.Plain.exec {w : Stmt} (hw : w.Plain) (s : Store) :
    ∃ s' : Store, w.exec s = .ok ((w.apply s.toTables).1, s') ∧
      s'.toTables = (w.apply s.toTables).2 := by
  suffices h : (w.apply s.toTables).2.ForeignKeys ∧ (w.apply s.toTables).2.UniqueKeys from
    ⟨_, exec_of_constraints h.1 h.2, rfl⟩
  cases w with
  | updateUser id p =>
    have hk : ∀ u : User, key (p.apply s.now u) = key u := fun _ => rfl
    exact ⟨{ s.foreign with
        basketUser := s.foreign.basketUser.update_target hk
        transactionUser := s.foreign.transactionUser.update_target hk
        outputUser := s.foreign.outputUser.update_target hk
        labelUser := s.foreign.labelUser.update_target hk
        tagUser := s.foreign.tagUser.update_target hk
        certificateUser := s.foreign.certificateUser.update_target hk
        fieldUser := s.foreign.fieldUser.update_target hk
        commissionUser := s.foreign.commissionUser.update_target hk
        syncStateUser := s.foreign.syncStateUser.update_target hk },
      { s.unique with users := s.unique.users.update hk fun _ => rfl }⟩
  | updateSyncState id p =>
    have hk : ∀ ss : SyncState, key (p.apply s.now ss) = key ss := fun _ => rfl
    exact ⟨{ s.foreign with syncStateUser := s.foreign.syncStateUser.update hk fun _ => rfl },
      { s.unique with syncStates := s.unique.syncStates.update hk fun _ => rfl }⟩
  | updateTransaction id p =>
    refine ⟨foreign_transactions_update s.foreign (fun _ => rfl) fun r i hi => .inl ?_,
      unique_transactions_update s.unique fun _ => rfl⟩
    have hp : p.provenTxId = none := hw
    simpa only [TransactionPartial.apply, hp, Option.none_or] using hi
  | updateProvenTxReq id p =>
    refine ⟨foreign_provenTxReqs_update s.foreign fun r i hi => .inl ?_,
      unique_provenTxReqs_update s.unique fun _ => rfl⟩
    have hp : p.provenTxId = none := hw
    simpa only [ProvenTxReqPartial.apply, hp, Option.none_or] using hi
  | updateOutput id p =>
    refine ⟨foreign_outputs_update s.foreign (fun _ => rfl) (fun _ => rfl) (fun r i hi => ?_)
      (fun r i hi => .inl ?_), unique_outputs_update s.unique (fun _ => rfl) (fun _ => rfl) fun _ => rfl⟩
    · simpa only [OutputPartial.apply, hw.1, setId] using hi
    · rcases hw.2 with h | h | h
      · simp [OutputPartial.apply, h] at hi
      · by_cases ht : p.spendable = some true <;> simp_all [OutputPartial.apply, setId]
      · by_cases ht : p.spendable = some true <;> simp_all [OutputPartial.apply, setId]
  | releaseInputsSpentBy ids t =>
    exact ⟨foreign_outputs_update s.foreign (fun _ => rfl) (fun _ => rfl) (fun _ _ hi => hi)
      (fun _ _ hi => by simp [release] at hi),
      unique_outputs_update s.unique (fun _ => rfl) (fun _ => rfl) fun _ => rfl⟩
  | _ => exact hw.elim

theorem Stmt.Plain.not_refused {w : Stmt} {s : Store} {err : WalletError} (h : w.exec s = .error err)
    (hw : w.Plain) : False := by
  obtain ⟨s', hexec, _⟩ := hw.exec s
  have hfalse := h.symm.trans hexec
  cases hfalse

/-- An update that links a proof which is there. -/
def Stmt.Links (d : Tables) : Stmt → Prop
  | .updateTransaction _ p => ∃ q ∈ d.provenTxs, p.provenTxId = some q.provenTxId
  | .updateProvenTxReq _ p => ∃ q ∈ d.provenTxs, p.provenTxId = some q.provenTxId
  | _ => False

/-- The engine executes a statement that links a proof. -/
theorem Stmt.Links.exec {w : Stmt} {s : Store} (hw : w.Links s.toTables) :
    ∃ s' : Store, w.exec s = .ok ((w.apply s.toTables).1, s') ∧
      s'.toTables = (w.apply s.toTables).2 := by
  suffices h : (w.apply s.toTables).2.ForeignKeys ∧ (w.apply s.toTables).2.UniqueKeys from
    ⟨_, exec_of_constraints h.1 h.2, rfl⟩
  cases w with
  | updateTransaction id p =>
    obtain ⟨q, hq, hp⟩ := hw
    refine ⟨foreign_transactions_update s.foreign (fun _ => rfl) fun r i hi => .inr ⟨q, hq, ?_⟩,
      unique_transactions_update s.unique fun _ => rfl⟩
    rw [TransactionPartial.apply, hp, Option.some_or] at hi
    exact Option.some.inj hi
  | updateProvenTxReq id p =>
    obtain ⟨q, hq, hp⟩ := hw
    refine ⟨foreign_provenTxReqs_update s.foreign fun r i hi => .inr ⟨q, hq, ?_⟩,
      unique_provenTxReqs_update s.unique fun _ => rfl⟩
    rw [ProvenTxReqPartial.apply, hp, Option.some_or] at hi
    exact Option.some.inj hi
  | _ => exact hw.elim

end Plain

/-! ## Inserts of proofs and requests -/

section Inserts

variable {s s' : Store}

/-- A request is refused exactly when one with its txid is there; it names no proof. -/
theorem exec_insertProvenTxReq {r : ProvenTxReq} (hproven : r.provenTxId = none)
    (hfresh : ∀ q ∈ s.provenTxReqs, q.txid ≠ r.txid) :
    ∃ n, ∃ s' : Store, (Stmt.insertProvenTxReq r).exec s = .ok (n, s') := by
  have hforeign : ((Stmt.insertProvenTxReq r).apply s.toTables).2.ForeignKeys := by
    refine { s.foreign with reqProvenTx := fun q hq i hi => ?_ }
    rcases mem_insertProvenTxReq.mp hq with hq | rfl
    · exact s.foreign.reqProvenTx q hq i hi
    · rw [show (r.stored _).provenTxId = r.provenTxId from rfl, hproven] at hi
      cases hi
  have hkeys : ((Stmt.insertProvenTxReq r).apply s.toTables).2.UniqueKeys := by
    refine { s.unique with provenTxReqs := ?_ }
    exact Table.Unique.insert s.unique.provenTxReqs (fun _ => rfl) hfresh
  exact ⟨_, _, exec_of_constraints hforeign hkeys⟩

/-- A proof is stored when there is none with its txid. -/
theorem exec_insertProvenTx {r : ProvenTx} (hfresh : ∀ q ∈ s.provenTxs, q.txid ≠ r.txid) :
    ∃ s' : Store, (Stmt.insertProvenTx r).exec s = .ok (s.provenTxs.lastId + 1, s') ∧
      s'.toTables = ((Stmt.insertProvenTx r).apply s.toTables).2 := by
  have hforeign : ((Stmt.insertProvenTx r).apply s.toTables).2.ForeignKeys :=
    { s.foreign with
      transactionProvenTx := s.foreign.transactionProvenTx.insert_target fun _ => rfl
      reqProvenTx := s.foreign.reqProvenTx.insert_target fun _ => rfl }
  have hkeys : ((Stmt.insertProvenTx r).apply s.toTables).2.UniqueKeys := by
    refine { s.unique with provenTxs := ?_ }
    exact Table.Unique.insert s.unique.provenTxs (fun _ => rfl) hfresh
  exact ⟨_, exec_of_constraints hforeign hkeys, rfl⟩

/-- An executed insert of a request found none with its txid. -/
theorem fresh_of_insertProvenTxReq {r : ProvenTxReq} {n : Nat}
    (h : (Stmt.insertProvenTxReq r).exec s = .ok (n, s')) : ∀ q ∈ s.provenTxReqs, q.txid ≠ r.txid := by
  intro q hq heq
  have hs' := (exec_eq h).2
  have hold : q ∈ s'.provenTxReqs := by
    rw [hs']
    exact mem_insertProvenTxReq.mpr (.inl hq)
  have hnew : r.stored (s.provenTxReqs.lastId + 1) ∈ s'.provenTxReqs := by
    rw [hs']
    exact mem_insertProvenTxReq.mpr (.inr rfl)
  have hsame := s'.unique.provenTxReqs.eq hold hnew heq
  have hkey : key q ≠ s.provenTxReqs.lastId + 1 := Table.key_ne_fresh hq
  rw [hsame] at hkey
  exact hkey rfl

theorem fresh_of_insertProvenTx {r : ProvenTx} {n : Nat}
    (h : (Stmt.insertProvenTx r).exec s = .ok (n, s')) : ∀ q ∈ s.provenTxs, q.txid ≠ r.txid := by
  intro q hq heq
  have hs' := (exec_eq h).2
  have hold : q ∈ s'.provenTxs := by
    rw [hs']
    exact mem_insertProvenTx.mpr (.inl hq)
  have hnew : r.stored (s.provenTxs.lastId + 1) ∈ s'.provenTxs := by
    rw [hs']
    exact mem_insertProvenTx.mpr (.inr rfl)
  have hsame := s'.unique.provenTxs.eq hold hnew heq
  have hkey : key q ≠ s.provenTxs.lastId + 1 := Table.key_ne_fresh hq
  rw [hsame] at hkey
  exact hkey rfl

end Inserts

/-! ## Rules for statements -/

section Rules

variable {w : Stmt} {s : Store} {E : Store → Prop}

@[simp] theorem wp_utcNow {Q : Nat → Store → Prop} :
    wp Stmt.exec utcNow Q E s ↔ Q s.now s := Iff.rfl

theorem wp_exec' {Q : Unit → Store → Prop} (hok : ∀ n s', w.exec s = .ok (n, s') → Q () s')
    (herr : ∀ e, w.exec s = .error e → E s) : wp Stmt.exec (exec' w) Q E s := by
  unfold exec'
  rw [wp_bind]
  exact wp_exec hok herr

/-- A statement that is executed has one outcome. -/
theorem wp_exec_of_ok {Q : Nat → Store → Prop}
    (hok : ∃ s' : Store, w.exec s = .ok ((w.apply s.toTables).1, s') ∧
      s'.toTables = (w.apply s.toTables).2)
    (h : ∀ s' : Store, s'.toTables = (w.apply s.toTables).2 → Q (w.apply s.toTables).1 s') :
    wp Stmt.exec (exec w) Q E s := by
  obtain ⟨s', hexec, hs'⟩ := hok
  refine wp_exec (fun n s₁ h₁ => ?_) (fun e he => ?_)
  · obtain ⟨rfl, rfl⟩ : (w.apply s.toTables).1 = n ∧ s' = s₁ := by
      simpa only [hexec, Except.ok.injEq, Prod.mk.injEq] using h₁
    exact h s' hs'
  · rw [hexec] at he
    cases he

theorem wp_exec_plain (hw : w.Plain) {Q : Nat → Store → Prop}
    (h : ∀ s' : Store, s'.toTables = (w.apply s.toTables).2 → Q (w.apply s.toTables).1 s') :
    wp Stmt.exec (exec w) Q E s :=
  wp_exec_of_ok (hw.exec s) h

theorem wp_exec'_links (hw : w.Links s.toTables) {Q : Unit → Store → Prop}
    (h : ∀ s' : Store, s'.toTables = (w.apply s.toTables).2 → Q () s') :
    wp Stmt.exec (exec' w) Q E s := by
  unfold exec'
  rw [wp_bind]
  exact wp_exec_of_ok hw.exec h

theorem wp_exec'_plain (hw : w.Plain) {Q : Unit → Store → Prop}
    (h : ∀ s' : Store, s'.toTables = (w.apply s.toTables).2 → Q () s') :
    wp Stmt.exec (exec' w) Q E s := by
  unfold exec'
  rw [wp_bind]
  exact wp_exec_plain hw h

/-- A call whose failure is ignored. -/
theorem wp_ignore {α : Type} {p : StorageProg α} {Q : Unit → Store → Prop}
    (h : wp Stmt.exec p (fun _ => Q ()) (Q ()) s) : wp Stmt.exec (ignore p) Q E s := by
  unfold ignore
  rw [wp_bind]
  exact wp_attempt (wp_mono h (fun _ _ h' => h') fun _ h' _ => h')

theorem wp_ignore_plain (hw : w.Plain) {Q : Unit → Store → Prop}
    (h : ∀ s' : Store, s'.toTables = (w.apply s.toTables).2 → Q () s') :
    wp Stmt.exec (ignore (exec w)) Q E s :=
  wp_ignore (wp_exec_plain hw h)

end Rules

end WalletToolbox.Storage
