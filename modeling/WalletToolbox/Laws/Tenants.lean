import WalletToolbox.Laws.CreateAction
import WalletToolbox.Lib.Among
import WalletToolbox.Lib.Frame
import WalletToolbox.System

/-! # Users of one store

Several users share a database.
No statement that a call issues takes a row away or sets the owner of a row, what a row is about or
an amount: whose row an id names is settled when the row is made.
A statement for a user adds rows of that user and changes rows of that user; the proofs and the
requests are shared by all.
Whatever such a statement does, it leaves what another user has as it was. -/

namespace WalletToolbox.Storage

open WalletToolbox.Lib
open WalletToolbox.Lib.Prog hiding pure exec

variable {s s' : Store} {d d' : Tables} {a b n : Nat} {w : Stmt}

/-! ## The lasting columns -/

/-- A nullable column that an update can set and not clear. -/
def StaysSet {α : Type} (old new : Option α) : Prop :=
  old.isSome = true → new.isSome = true

theorem staysSet_or {α : Type} (value old : Option α) : StaysSet old (value.or old) := by
  intro h
  cases value with
  | none => exact h
  | some a => rfl

instance : Lasting User where
  same u u' := u'.identityKey = u.identityKey
  refl _ := rfl
  trans _ _ _ h h' := h'.trans h

instance : Lasting OutputBasket where
  same b b' := b'.userId = b.userId ∧ b'.name = b.name
  refl _ := ⟨rfl, rfl⟩
  trans _ _ _ h h' := ⟨h'.1.trans h.1, h'.2.trans h.2⟩

/-- What lasts of a transaction. -/
structure Transaction.Lasts (t t' : Transaction) : Prop where
  userId : t'.userId = t.userId
  reference : t'.reference = t.reference
  txid : StaysSet t.txid t'.txid
  rawTx : StaysSet t.rawTx t'.rawTx
  provenTxId : StaysSet t.provenTxId t'.provenTxId

instance : Lasting Transaction where
  same := Transaction.Lasts
  refl _ := ⟨rfl, rfl, id, id, id⟩
  trans _ _ _ h h' := ⟨h'.userId.trans h.userId, h'.reference.trans h.reference,
    h'.txid ∘ h.txid, h'.rawTx ∘ h.rawTx, h'.provenTxId ∘ h.provenTxId⟩

/-- What lasts of an output. -/
structure Output.Lasts (o o' : Output) : Prop where
  userId : o'.userId = o.userId
  transactionId : o'.transactionId = o.transactionId
  vout : o'.vout = o.vout
  satoshis : o'.satoshis = o.satoshis
  derivationPrefix : o'.derivationPrefix = o.derivationPrefix
  derivationSuffix : o'.derivationSuffix = o.derivationSuffix
  txid : StaysSet o.txid o'.txid

instance : Lasting Output where
  same := Output.Lasts
  refl _ := ⟨rfl, rfl, rfl, rfl, rfl, rfl, id⟩
  trans _ _ _ h h' := ⟨h'.userId.trans h.userId, h'.transactionId.trans h.transactionId,
    h'.vout.trans h.vout, h'.satoshis.trans h.satoshis,
    h'.derivationPrefix.trans h.derivationPrefix, h'.derivationSuffix.trans h.derivationSuffix,
    h'.txid ∘ h.txid⟩

/-- A proof keeps its path and its root. -/
instance : Lasting ProvenTx where
  same p p' := p'.merklePath = p.merklePath ∧ p'.merkleRoot = p.merkleRoot ∧ p'.rawTx = p.rawTx
  refl _ := ⟨rfl, rfl, rfl⟩
  trans _ _ _ h h' := ⟨h'.1.trans h.1, h'.2.1.trans h.2.1, h'.2.2.trans h.2.2⟩

/-- What lasts of a request. -/
structure ProvenTxReq.Lasts (q q' : ProvenTxReq) : Prop where
  txid : q'.txid = q.txid
  rawTx : q'.rawTx = q.rawTx
  inputBeef : q'.inputBeef = q.inputBeef
  notify : q'.notify = q.notify
  provenTxId : StaysSet q.provenTxId q'.provenTxId

instance : Lasting ProvenTxReq where
  same := ProvenTxReq.Lasts
  refl _ := ⟨rfl, rfl, rfl, rfl, id⟩
  trans _ _ _ h h' := ⟨h'.txid.trans h.txid, h'.rawTx.trans h.rawTx, h'.inputBeef.trans h.inputBeef,
    h'.notify.trans h.notify, h'.provenTxId ∘ h.provenTxId⟩

instance : Lasting TxLabel where
  same l l' := l'.userId = l.userId ∧ l'.label = l.label
  refl _ := ⟨rfl, rfl⟩
  trans _ _ _ h h' := ⟨h'.1.trans h.1, h'.2.trans h.2⟩

instance : Lasting TxLabelMap where
  same m m' := m'.txLabelId = m.txLabelId ∧ m'.transactionId = m.transactionId
  refl _ := ⟨rfl, rfl⟩
  trans _ _ _ h h' := ⟨h'.1.trans h.1, h'.2.trans h.2⟩

instance : Lasting OutputTag where
  same t t' := t'.userId = t.userId ∧ t'.tag = t.tag
  refl _ := ⟨rfl, rfl⟩
  trans _ _ _ h h' := ⟨h'.1.trans h.1, h'.2.trans h.2⟩

instance : Lasting OutputTagMap where
  same m m' := m'.outputTagId = m.outputTagId ∧ m'.outputId = m.outputId
  refl _ := ⟨rfl, rfl⟩
  trans _ _ _ h h' := ⟨h'.1.trans h.1, h'.2.trans h.2⟩

instance : Lasting Certificate where
  same c c' := c'.userId = c.userId ∧ c'.certifier = c.certifier
  refl _ := ⟨rfl, rfl⟩
  trans _ _ _ h h' := ⟨h'.1.trans h.1, h'.2.trans h.2⟩

instance : Lasting CertificateField where
  same f f' := f'.userId = f.userId ∧ f'.certificateId = f.certificateId ∧ f'.fieldName = f.fieldName
  refl _ := ⟨rfl, rfl, rfl⟩
  trans _ _ _ h h' := ⟨h'.1.trans h.1, h'.2.1.trans h.2.1, h'.2.2.trans h.2.2⟩

instance : Lasting Commission where
  same c c' := c'.userId = c.userId ∧ c'.transactionId = c.transactionId ∧ c'.satoshis = c.satoshis
  refl _ := ⟨rfl, rfl, rfl⟩
  trans _ _ _ h h' := ⟨h'.1.trans h.1, h'.2.1.trans h.2.1, h'.2.2.trans h.2.2⟩

instance : Lasting SyncState where
  same x x' := x'.userId = x.userId ∧ x'.storageIdentityKey = x.storageIdentityKey
  refl _ := ⟨rfl, rfl⟩
  trans _ _ _ h h' := ⟨h'.1.trans h.1, h'.2.trans h.2⟩

/-- Every row is still there, with its lasting columns. -/
structure Persists (d d' : Tables) : Prop where
  users : d.users.Kept d'.users
  outputBaskets : d.outputBaskets.Kept d'.outputBaskets
  transactions : d.transactions.Kept d'.transactions
  outputs : d.outputs.Kept d'.outputs
  provenTxs : d.provenTxs.Kept d'.provenTxs
  provenTxReqs : d.provenTxReqs.Kept d'.provenTxReqs
  txLabels : d.txLabels.Kept d'.txLabels
  txLabelMaps : d.txLabelMaps.Kept d'.txLabelMaps
  outputTags : d.outputTags.Kept d'.outputTags
  outputTagMaps : d.outputTagMaps.Kept d'.outputTagMaps
  certificates : d.certificates.Kept d'.certificates
  certificateFields : d.certificateFields.Kept d'.certificateFields
  commissions : d.commissions.Kept d'.commissions
  syncStates : d.syncStates.Kept d'.syncStates

theorem Persists.refl (d : Tables) : Persists d d where
  users := .refl _
  outputBaskets := .refl _
  transactions := .refl _
  outputs := .refl _
  provenTxs := .refl _
  provenTxReqs := .refl _
  txLabels := .refl _
  txLabelMaps := .refl _
  outputTags := .refl _
  outputTagMaps := .refl _
  certificates := .refl _
  certificateFields := .refl _
  commissions := .refl _
  syncStates := .refl _

theorem Persists.trans {d₁ d₂ d₃ : Tables} (h : Persists d₁ d₂) (h' : Persists d₂ d₃) :
    Persists d₁ d₃ where
  users := h.users.trans h'.users
  outputBaskets := h.outputBaskets.trans h'.outputBaskets
  transactions := h.transactions.trans h'.transactions
  outputs := h.outputs.trans h'.outputs
  provenTxs := h.provenTxs.trans h'.provenTxs
  provenTxReqs := h.provenTxReqs.trans h'.provenTxReqs
  txLabels := h.txLabels.trans h'.txLabels
  txLabelMaps := h.txLabelMaps.trans h'.txLabelMaps
  outputTags := h.outputTags.trans h'.outputTags
  outputTagMaps := h.outputTagMaps.trans h'.outputTagMaps
  certificates := h.certificates.trans h'.certificates
  certificateFields := h.certificateFields.trans h'.certificateFields
  commissions := h.commissions.trans h'.commissions
  syncStates := h.syncStates.trans h'.syncStates

/-! ## Every statement -/

theorem lasts_updateTransaction (p : TransactionPartial) (now : Nat) (t : Transaction) :
    t.Lasts (p.apply now t) :=
  ⟨rfl, rfl, staysSet_or _ _, staysSet_or _ _, staysSet_or _ _⟩

theorem lasts_updateOutput (p : OutputPartial) (now : Nat) (o : Output) : o.Lasts (p.apply now o) :=
  ⟨rfl, rfl, rfl, rfl, rfl, rfl, staysSet_or _ _⟩

theorem lasts_claim (now t : Nat) (o : Output) : o.Lasts (claim now t o) :=
  ⟨rfl, rfl, rfl, rfl, rfl, rfl, id⟩

theorem lasts_release (now : Nat) (o : Output) : o.Lasts (release now o) :=
  ⟨rfl, rfl, rfl, rfl, rfl, rfl, id⟩

theorem lasts_updateProvenTxReq (p : ProvenTxReqPartial) (now : Nat) (q : ProvenTxReq) :
    q.Lasts (p.apply now q) :=
  ⟨rfl, rfl, rfl, rfl, staysSet_or _ _⟩

theorem persists_apply (w : Stmt) (d : Tables) : Persists d (w.apply d).2 := by
  have h := Persists.refl d
  cases w with
  | insertUser r => exact { h with users := .insert fun _ => rfl }
  | insertOutputBasket r => exact { h with outputBaskets := .insert fun _ => rfl }
  | insertTransaction r => exact { h with transactions := .insert fun _ => rfl }
  | insertOutput r => exact { h with outputs := .insert fun _ => rfl }
  | insertProvenTx r => exact { h with provenTxs := .insert fun _ => rfl }
  | insertProvenTxReq r => exact { h with provenTxReqs := .insert fun _ => rfl }
  | insertTxLabel r => exact { h with txLabels := .insert fun _ => rfl }
  | insertTxLabelMap r => exact { h with txLabelMaps := .insert fun _ => rfl }
  | insertOutputTag r => exact { h with outputTags := .insert fun _ => rfl }
  | insertOutputTagMap r => exact { h with outputTagMaps := .insert fun _ => rfl }
  | insertCertificate r => exact { h with certificates := .insert fun _ => rfl }
  | insertCertificateField r => exact { h with certificateFields := .insert fun _ => rfl }
  | insertCommission r => exact { h with commissions := .insert fun _ => rfl }
  | insertSyncState r => exact { h with syncStates := .insert fun _ => rfl }
  | updateUser id p => exact { h with users := .update (p.apply d.now) (fun _ => rfl) fun _ => rfl }
  | updateOutputBasket id p =>
    exact { h with outputBaskets := .update (p.apply d.now) (fun _ => rfl) fun _ => ⟨rfl, rfl⟩ }
  | updateTransaction id p =>
    exact { h with transactions :=
      Table.Kept.update (p.apply d.now) (fun _ => rfl) (lasts_updateTransaction p d.now) }
  | updateOutput id p =>
    exact { h with outputs :=
      Table.Kept.update (p.apply d.now) (fun _ => rfl) (lasts_updateOutput p d.now) }
  | updateProvenTx id p =>
    exact { h with provenTxs := .update (p.apply d.now) (fun _ => rfl) fun _ => ⟨rfl, rfl, rfl⟩ }
  | updateProvenTxReq id p =>
    exact { h with provenTxReqs :=
      Table.Kept.update (p.apply d.now) (fun _ => rfl) (lasts_updateProvenTxReq p d.now) }
  | updateTxLabel id p =>
    exact { h with txLabels := .update (p.applyLabel d.now) (fun _ => rfl) fun _ => ⟨rfl, rfl⟩ }
  | updateTxLabelMap t l p =>
    exact { h with txLabelMaps :=
      Table.Kept.update (p.applyLabelMap d.now) (fun _ => rfl) fun _ => ⟨rfl, rfl⟩ }
  | updateOutputTag id p =>
    exact { h with outputTags := .update (p.applyTag d.now) (fun _ => rfl) fun _ => ⟨rfl, rfl⟩ }
  | updateOutputTagMap o t p =>
    exact { h with outputTagMaps :=
      Table.Kept.update (p.applyTagMap d.now) (fun _ => rfl) fun _ => ⟨rfl, rfl⟩ }
  | updateCertificate id p =>
    exact { h with certificates := .update (p.apply d.now) (fun _ => rfl) fun _ => ⟨rfl, rfl⟩ }
  | updateCertificateField id name p =>
    exact { h with certificateFields :=
      Table.Kept.update (p.apply d.now) (fun _ => rfl) fun _ => ⟨rfl, rfl, rfl⟩ }
  | updateCommission id p =>
    exact { h with commissions :=
      Table.Kept.update (p.apply d.now) (fun _ => rfl) fun _ => ⟨rfl, rfl, rfl⟩ }
  | updateSyncState id p =>
    exact { h with syncStates := .update (p.apply d.now) (fun _ => rfl) fun _ => ⟨rfl, rfl⟩ }
  | markInputsSpent ids t u =>
    exact { h with outputs := .update (claim d.now t) (fun _ => rfl) (lasts_claim d.now t) }
  | releaseInputsSpentBy ids t =>
    exact { h with outputs := .update (release d.now) (fun _ => rfl) (lasts_release d.now) }

/-- What any program can make of a store. -/
def Evolves (s s' : Store) : Prop := Persists s.toTables s'.toTables

theorem Evolves.refl (s : Store) : Evolves s s := Persists.refl _

theorem Evolves.trans {s₁ s₂ s₃ : Store} (h : Evolves s₁ s₂) (h' : Evolves s₂ s₃) : Evolves s₁ s₃ :=
  Persists.trans h h'

theorem exec_evolves (w : Stmt) (s : Store) (n : Nat) (s' : Store) (h : w.exec s = .ok (n, s')) :
    Evolves s s' := by
  show Persists s.toTables s'.toTables
  rw [(exec_eq h).2]
  exact persists_apply w s.toTables

/-! ## Owners -/

instance : Owned User := ⟨User.userId, fun _ _ h _ => h⟩
instance : Owned OutputBasket := ⟨OutputBasket.userId, fun _ _ _ h => h.1⟩
instance : Owned Transaction := ⟨Transaction.userId, fun _ _ _ h => h.userId⟩
instance : Owned Output := ⟨Output.userId, fun _ _ _ h => h.userId⟩
instance : Owned TxLabel := ⟨TxLabel.userId, fun _ _ _ h => h.1⟩
instance : Owned OutputTag := ⟨OutputTag.userId, fun _ _ _ h => h.1⟩
instance : Owned Certificate := ⟨Certificate.userId, fun _ _ _ h => h.1⟩
instance : Owned CertificateField := ⟨CertificateField.userId, fun _ _ _ h => h.1⟩
instance : Owned Commission := ⟨Commission.userId, fun _ _ _ h => h.1⟩
instance : Owned SyncState := ⟨SyncState.userId, fun _ _ _ h => h.1⟩

/-! ## Whose rows a statement touches -/

/-- The statement adds and changes rows of the user `a` only, the shared tables apart. A map row
belongs to the user of its label or tag. -/
def Stmt.Within (a : Nat) (d : Tables) : Stmt → Prop
  | .insertUser _ => True
  | .insertOutputBasket r => r.userId = a
  | .insertTransaction r => r.userId = a
  | .insertOutput r => r.userId = a
  | .insertProvenTx _ => True
  | .insertProvenTxReq _ => True
  | .insertTxLabel r => r.userId = a
  | .insertTxLabelMap r => d.txLabels.OwnedBy a r.txLabelId
  | .insertOutputTag r => r.userId = a
  | .insertOutputTagMap r => d.outputTags.OwnedBy a r.outputTagId
  | .insertCertificate r => r.userId = a
  | .insertCertificateField r => r.userId = a
  | .insertCommission r => r.userId = a
  | .insertSyncState r => r.userId = a
  | .updateUser id _ => id = a
  | .updateOutputBasket id _ => d.outputBaskets.OwnedBy a id
  | .updateTransaction id _ => d.transactions.OwnedBy a id
  | .updateOutput id _ => d.outputs.OwnedBy a id
  | .updateProvenTx _ _ => True
  | .updateProvenTxReq _ _ => True
  | .updateTxLabel id _ => d.txLabels.OwnedBy a id
  | .updateTxLabelMap _ l _ => d.txLabels.OwnedBy a l
  | .updateOutputTag id _ => d.outputTags.OwnedBy a id
  | .updateOutputTagMap _ t _ => d.outputTags.OwnedBy a t
  | .updateCertificate id _ => d.certificates.OwnedBy a id
  | .updateCertificateField id name _ =>
    ∀ f ∈ d.certificateFields, f.certificateId = id → f.fieldName = name → f.userId = a
  | .updateCommission id _ => d.commissions.OwnedBy a id
  | .updateSyncState id _ => d.syncStates.OwnedBy a id
  | .markInputsSpent _ _ u => u = a
  | .releaseInputsSpentBy ids _ => ∀ id ∈ ids, d.outputs.OwnedBy a id

/-- The map rows of the labels of a user. -/
def Tables.labelMapsOf (d : Tables) (b : Nat) : List TxLabelMap :=
  d.txLabelMaps.find fun m => (d.txLabels.rowsOf b).any (key · == m.txLabelId)

/-- The map rows of the tags of a user. -/
def Tables.tagMapsOf (d : Tables) (b : Nat) : List OutputTagMap :=
  d.outputTagMaps.find fun m => (d.outputTags.rowsOf b).any (key · == m.outputTagId)

/-- All that the user `b` has is the same. -/
structure Untouched (b : Nat) (d d' : Tables) : Prop where
  users : d'.users.rowsOf b = d.users.rowsOf b
  outputBaskets : d'.outputBaskets.rowsOf b = d.outputBaskets.rowsOf b
  transactions : d'.transactions.rowsOf b = d.transactions.rowsOf b
  outputs : d'.outputs.rowsOf b = d.outputs.rowsOf b
  txLabels : d'.txLabels.rowsOf b = d.txLabels.rowsOf b
  txLabelMaps : d'.labelMapsOf b = d.labelMapsOf b
  outputTags : d'.outputTags.rowsOf b = d.outputTags.rowsOf b
  outputTagMaps : d'.tagMapsOf b = d.tagMapsOf b
  certificates : d'.certificates.rowsOf b = d.certificates.rowsOf b
  certificateFields : d'.certificateFields.rowsOf b = d.certificateFields.rowsOf b
  commissions : d'.commissions.rowsOf b = d.commissions.rowsOf b
  syncStates : d'.syncStates.rowsOf b = d.syncStates.rowsOf b

theorem Untouched.refl (b : Nat) (d : Tables) : Untouched b d d :=
  ⟨rfl, rfl, rfl, rfl, rfl, rfl, rfl, rfl, rfl, rfl, rfl, rfl⟩

theorem Untouched.trans {d₁ d₂ d₃ : Tables} (h : Untouched b d₁ d₂) (h' : Untouched b d₂ d₃) :
    Untouched b d₁ d₃ where
  users := h'.users.trans h.users
  outputBaskets := h'.outputBaskets.trans h.outputBaskets
  transactions := h'.transactions.trans h.transactions
  outputs := h'.outputs.trans h.outputs
  txLabels := h'.txLabels.trans h.txLabels
  txLabelMaps := h'.txLabelMaps.trans h.txLabelMaps
  outputTags := h'.outputTags.trans h.outputTags
  outputTagMaps := h'.outputTagMaps.trans h.outputTagMaps
  certificates := h'.certificates.trans h.certificates
  certificateFields := h'.certificateFields.trans h.certificateFields
  commissions := h'.commissions.trans h.commissions
  syncStates := h'.syncStates.trans h.syncStates

section Rows

variable {α : Type} [Keyed α] [Lasting α] [Owned α] {t : Table α} {id : Nat}

/-- A row with an id of the caller is not one of another user. -/
theorem owner_ne (h : t.OwnedBy a id) (hab : a ≠ b) :
    ∀ r ∈ t, (key r == id) = true → Owned.owner r ≠ b :=
  fun _ hr hid heq => hab ((h.owner_eq hr (beq_iff_eq.mp hid)).symm.trans heq)

theorem rowsOf_insert_own (mk : Nat → α) (hk : ∀ n, key (mk n) = n)
    (h : Owned.owner (mk (t.lastId + 1)) = a) (hab : a ≠ b) :
    (t.insert mk hk).rowsOf b = t.rowsOf b :=
  Table.rowsOf_insert mk hk fun heq => hab (h.symm.trans heq)

theorem rowsOf_update_own (f : α → α) (hf : ∀ r, key (f r) = key r)
    (hsame : ∀ r, Lasting.same r (f r)) (h : t.OwnedBy a id) (hab : a ≠ b) :
    (t.update (key · == id) f hf).rowsOf b = t.rowsOf b :=
  Table.rowsOf_update f hf hsame (owner_ne h hab)

theorem any_rowsOf_eq_false (h : t.OwnedBy a id) (hab : a ≠ b) :
    (t.rowsOf b).any (key · == id) = false := by
  rw [List.any_eq_false]
  intro r hr hid
  obtain ⟨hr, howner⟩ := Table.mem_find.mp hr
  exact owner_ne h hab r hr hid (beq_iff_eq.mp howner)

end Rows

/-- A statement for one user leaves another one alone. -/
theorem untouched_apply (hw : w.Within a d) (hab : a ≠ b) (hb : ∃ u ∈ d.users, u.userId = b) :
    Untouched b d (w.apply d).2 := by
  have h := Untouched.refl b d
  have hother : ∀ {id : Nat}, id = a → id ≠ b := fun hid heq => hab (hid.symm.trans heq)
  cases w with
  | insertUser r =>
    obtain ⟨u, hu, rfl⟩ := hb
    have hfresh : d.users.lastId + 1 ≠ u.userId := (Table.key_ne_fresh hu).symm
    exact { h with users := Table.rowsOf_insert r.stored (fun _ => rfl) hfresh }
  | insertOutputBasket r =>
    exact { h with outputBaskets := rowsOf_insert_own r.stored (fun _ => rfl) hw hab }
  | insertTransaction r =>
    exact { h with transactions := rowsOf_insert_own r.stored (fun _ => rfl) hw hab }
  | insertOutput r => exact { h with outputs := rowsOf_insert_own r.stored (fun _ => rfl) hw hab }
  | insertProvenTx r => exact { h with }
  | insertProvenTxReq r => exact { h with }
  | insertTxLabel r =>
    have hrows : (d.txLabels.insert r.stored fun _ => rfl).rowsOf b = d.txLabels.rowsOf b :=
      rowsOf_insert_own r.stored (fun _ => rfl) hw hab
    exact { h with
      txLabels := hrows
      txLabelMaps := by simp only [Stmt.apply, Tables.labelMapsOf, hrows] }
  | insertTxLabelMap r =>
    exact { h with txLabelMaps :=
      Table.find_insert_of_not r.stored (fun _ => rfl) (any_rowsOf_eq_false hw hab) }
  | insertOutputTag r =>
    have hrows : (d.outputTags.insert r.stored fun _ => rfl).rowsOf b = d.outputTags.rowsOf b :=
      rowsOf_insert_own r.stored (fun _ => rfl) hw hab
    exact { h with
      outputTags := hrows
      outputTagMaps := by simp only [Stmt.apply, Tables.tagMapsOf, hrows] }
  | insertOutputTagMap r =>
    exact { h with outputTagMaps :=
      Table.find_insert_of_not r.stored (fun _ => rfl) (any_rowsOf_eq_false hw hab) }
  | insertCertificate r =>
    exact { h with certificates := rowsOf_insert_own r.stored (fun _ => rfl) hw hab }
  | insertCertificateField r =>
    exact { h with certificateFields := rowsOf_insert_own r.stored (fun _ => rfl) hw hab }
  | insertCommission r =>
    exact { h with commissions := rowsOf_insert_own r.stored (fun _ => rfl) hw hab }
  | insertSyncState r =>
    exact { h with syncStates := rowsOf_insert_own r.stored (fun _ => rfl) hw hab }
  | updateUser id p =>
    have hid : ∀ u ∈ d.users, (u.userId == id) = true → u.userId ≠ b :=
      fun u _ hid => hother ((beq_iff_eq.mp hid).trans hw)
    exact { h with users :=
      Table.rowsOf_update (p.apply d.now) (fun _ => rfl) (fun _ => rfl) hid }
  | updateOutputBasket id p =>
    exact { h with outputBaskets :=
      rowsOf_update_own (p.apply d.now) (fun _ => rfl) (fun _ => ⟨rfl, rfl⟩) hw hab }
  | updateTransaction id p =>
    exact { h with transactions :=
      rowsOf_update_own (p.apply d.now) (fun _ => rfl) (lasts_updateTransaction p d.now) hw hab }
  | updateOutput id p =>
    exact { h with outputs :=
      rowsOf_update_own (p.apply d.now) (fun _ => rfl) (lasts_updateOutput p d.now) hw hab }
  | updateProvenTx id p => exact { h with }
  | updateProvenTxReq id p => exact { h with }
  | updateTxLabel id p =>
    have hrows : (d.txLabels.update (·.txLabelId == id) (p.applyLabel d.now) fun _ => rfl).rowsOf b =
        d.txLabels.rowsOf b :=
      rowsOf_update_own (p.applyLabel d.now) (fun _ => rfl) (fun _ => ⟨rfl, rfl⟩) hw hab
    exact { h with
      txLabels := hrows
      txLabelMaps := by simp only [Stmt.apply, Tables.labelMapsOf, hrows] }
  | updateTxLabelMap t l p =>
    have hnone := any_rowsOf_eq_false (b := b) hw hab
    refine { h with txLabelMaps :=
      Table.find_update_of_not (p.applyLabelMap d.now) (fun _ => rfl) fun m _ hsel => ?_ }
    rw [Bool.and_eq_true, beq_iff_eq, beq_iff_eq] at hsel
    exact ⟨hsel.2 ▸ hnone, hsel.2 ▸ hnone⟩
  | updateOutputTag id p =>
    have hrows : (d.outputTags.update (·.outputTagId == id) (p.applyTag d.now) fun _ => rfl).rowsOf b =
        d.outputTags.rowsOf b :=
      rowsOf_update_own (p.applyTag d.now) (fun _ => rfl) (fun _ => ⟨rfl, rfl⟩) hw hab
    exact { h with
      outputTags := hrows
      outputTagMaps := by simp only [Stmt.apply, Tables.tagMapsOf, hrows] }
  | updateOutputTagMap o t p =>
    have hnone := any_rowsOf_eq_false (b := b) hw hab
    refine { h with outputTagMaps :=
      Table.find_update_of_not (p.applyTagMap d.now) (fun _ => rfl) fun m _ hsel => ?_ }
    rw [Bool.and_eq_true, beq_iff_eq, beq_iff_eq] at hsel
    exact ⟨hsel.2 ▸ hnone, hsel.2 ▸ hnone⟩
  | updateCertificate id p =>
    exact { h with certificates :=
      rowsOf_update_own (p.apply d.now) (fun _ => rfl) (fun _ => ⟨rfl, rfl⟩) hw hab }
  | updateCertificateField id name p =>
    have hsel : ∀ f ∈ d.certificateFields, (f.certificateId == id && f.fieldName == name) = true →
        f.userId ≠ b := by
      intro f hf hsel
      rw [Bool.and_eq_true, beq_iff_eq, beq_iff_eq] at hsel
      exact hother (hw f hf hsel.1 hsel.2)
    exact { h with certificateFields :=
      Table.rowsOf_update (p.apply d.now) (fun _ => rfl) (fun _ => ⟨rfl, rfl, rfl⟩) hsel }
  | updateCommission id p =>
    exact { h with commissions :=
      rowsOf_update_own (p.apply d.now) (fun _ => rfl) (fun _ => ⟨rfl, rfl, rfl⟩) hw hab }
  | updateSyncState id p =>
    exact { h with syncStates :=
      rowsOf_update_own (p.apply d.now) (fun _ => rfl) (fun _ => ⟨rfl, rfl⟩) hw hab }
  | markInputsSpent ids t u =>
    refine { h with outputs :=
      Table.rowsOf_update (claim d.now t) (fun _ => rfl) (lasts_claim d.now t) fun o _ hsel => ?_ }
    exact hother ((claimable_iff.mp hsel).2.userId.trans hw)
  | releaseInputsSpentBy ids t =>
    refine { h with outputs :=
      Table.rowsOf_update (release d.now) (fun _ => rfl) (lasts_release d.now) fun o ho hsel => ?_ }
    rw [releasable, Bool.and_eq_true, List.contains_iff_mem] at hsel
    exact hother ((hw o.outputId hsel.1).owner_eq ho rfl)

end WalletToolbox.Storage
