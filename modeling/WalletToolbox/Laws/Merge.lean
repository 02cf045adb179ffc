import WalletToolbox.Laws.SyncTurn
import WalletToolbox.Lib.Resume

/-! # Merging a row

Every merger translates the incoming row, looks for a local row with the same natural key, and then
updates or inserts.
The twelve kinds differ in the columns of the key, in the foreign keys and in the columns that an
update sets; what follows from that is said here once for all of them. -/

namespace WalletToolbox.Storage

open WalletToolbox.Lib
open WalletToolbox.Lib.Prog hiding pure exec

namespace Entity

/-! ## What the kinds differ in -/

/-- The columns by which the merger of a kind recognizes a row. -/
abbrev NaturalKey : Entity → Type
  | .provenTx | .provenTxReq => String
  | .outputBasket | .outputTag | .txLabel | .transaction | .certificateField => Nat × String
  | .output | .txLabelMap | .outputTagMap => Nat × Nat
  | .certificate => Nat × String × String
  | .commission => Nat × Nat × String

def natural : (e : Entity) → e.Row → e.NaturalKey
  | .provenTx, (r : ProvenTx) => r.txid
  | .outputBasket, (r : OutputBasket) => (r.userId, r.name)
  | .outputTag, (r : OutputTag) => (r.userId, r.tag)
  | .txLabel, (r : TxLabel) => (r.userId, r.label)
  | .transaction, (r : Transaction) => (r.userId, r.reference)
  | .output, (r : Output) => (r.transactionId, r.vout)
  | .txLabelMap, (r : TxLabelMap) => (r.txLabelId, r.transactionId)
  | .outputTagMap, (r : OutputTagMap) => (r.outputTagId, r.outputId)
  | .certificate, (r : Certificate) => (r.userId, r.serialNumber, r.certifier)
  | .certificateField, (r : CertificateField) => (r.certificateId, r.fieldName)
  | .commission, (r : Commission) => (r.userId, r.transactionId, r.keyOffset)
  | .provenTxReq, (r : ProvenTxReq) => r.txid

instance : (e : Entity) → DecidableEq e.NaturalKey
  | .provenTx | .provenTxReq => inferInstanceAs (DecidableEq String)
  | .outputBasket | .outputTag | .txLabel | .transaction | .certificateField =>
    inferInstanceAs (DecidableEq (Nat × String))
  | .output | .txLabelMap | .outputTagMap => inferInstanceAs (DecidableEq (Nat × Nat))
  | .certificate => inferInstanceAs (DecidableEq (Nat × String × String))
  | .commission => inferInstanceAs (DecidableEq (Nat × Nat × String))

/-- The incoming row with the user and the foreign keys of this store. -/
def translate (userId : Nat) (m : SyncMap) : (e : Entity) → e.Row → Except WalletError e.Row
  | .provenTx, (r : ProvenTx) => .ok r
  | .outputBasket, (r : OutputBasket) => .ok { r with userId }
  | .outputTag, (r : OutputTag) => .ok { r with userId }
  | .txLabel, (r : TxLabel) => .ok { r with userId }
  | .transaction, (r : Transaction) =>
    .ok { r with userId, provenTxId := r.provenTxId.bind m.provenTx.getLocalId }
  | .output, (r : Output) => do
    let transactionId ← remapRequiredFk m.transaction r.transactionId "output" "transaction_id"
    pure { r with userId, transactionId, basketId := r.basketId.bind m.outputBasket.getLocalId
                  spentBy := r.spentBy.bind m.transaction.getLocalId }
  | .txLabelMap, (r : TxLabelMap) => do
    let txLabelId ← remapRequiredFk m.txLabel r.txLabelId "txLabelMap" "tx_label_id"
    let transactionId ← remapRequiredFk m.transaction r.transactionId "txLabelMap" "transaction_id"
    pure { r with txLabelId, transactionId }
  | .outputTagMap, (r : OutputTagMap) => do
    let outputTagId ← remapRequiredFk m.outputTag r.outputTagId "outputTagMap" "output_tag_id"
    let outputId ← remapRequiredFk m.output r.outputId "outputTagMap" "output_id"
    pure { r with outputTagId, outputId }
  | .certificate, (r : Certificate) => .ok { r with userId }
  | .certificateField, (r : CertificateField) => do
    let certificateId ←
      remapRequiredFk m.certificate r.certificateId "certificateField" "certificate_id"
    pure { r with userId, certificateId }
  | .commission, (r : Commission) => do
    let transactionId ← remapRequiredFk m.transaction r.transactionId "commission" "transaction_id"
    pure { r with userId, transactionId }
  | .provenTxReq, (r : ProvenTxReq) =>
    .ok { r with provenTxId := r.provenTxId.bind m.provenTx.getLocalId }

/-- The statement that inserts a row. -/
def insertion : (e : Entity) → e.Row → Stmt
  | .provenTx => .insertProvenTx
  | .outputBasket => .insertOutputBasket
  | .outputTag => .insertOutputTag
  | .txLabel => .insertTxLabel
  | .transaction => .insertTransaction
  | .output => .insertOutput
  | .txLabelMap => .insertTxLabelMap
  | .outputTagMap => .insertOutputTagMap
  | .certificate => .insertCertificate
  | .certificateField => .insertCertificateField
  | .commission => .insertCommission
  | .provenTxReq => .insertProvenTxReq

/-- The row that an insert stores. -/
def stored : (e : Entity) → e.Row → Nat → e.Row
  | .provenTx => ProvenTx.stored
  | .outputBasket => OutputBasket.stored
  | .outputTag => OutputTag.stored
  | .txLabel => TxLabel.stored
  | .transaction => Transaction.stored
  | .output => Output.stored
  | .txLabelMap => TxLabelMap.stored
  | .outputTagMap => OutputTagMap.stored
  | .certificate => Certificate.stored
  | .certificateField => CertificateField.stored
  | .commission => Commission.stored
  | .provenTxReq => ProvenTxReq.stored

/-- What an update makes of a local row; proofs are not updated. -/
def merged : (e : Entity) → e.Row → e.Row → e.Row
  | .provenTx, _, l => l
  | .outputBasket, (r : OutputBasket), (l : OutputBasket) =>
    { l with
      numberOfDesiredUtxos := r.numberOfDesiredUtxos
      minimumDesiredUtxoValue := r.minimumDesiredUtxoValue
      isDeleted := r.isDeleted, updatedAt := max r.updatedAt l.updatedAt }
  | .outputTag, (r : OutputTag), (l : OutputTag) =>
    { l with isDeleted := r.isDeleted, updatedAt := max r.updatedAt l.updatedAt }
  | .txLabel, (r : TxLabel), (l : TxLabel) =>
    { l with isDeleted := r.isDeleted, updatedAt := max r.updatedAt l.updatedAt }
  | .transaction, (r : Transaction), (l : Transaction) =>
    { l with
      provenTxId := r.provenTxId.or l.provenTxId, status := r.status, txid := r.txid.or l.txid
      version := r.version.or l.version, lockTime := r.lockTime.or l.lockTime
      isOutgoing := r.isOutgoing, satoshis := r.satoshis, description := r.description
      rawTx := r.rawTx.or l.rawTx, inputBeef := r.inputBeef.or l.inputBeef
      updatedAt := max r.updatedAt l.updatedAt }
  | .output, (r : Output), (l : Output) =>
    { l with
      spendable := r.spendable, change := r.change, outputType := r.outputType
      providedBy := r.providedBy, purpose := r.purpose
      outputDescription := r.outputDescription.or l.outputDescription
      spendingDescription := r.spendingDescription.or l.spendingDescription
      senderIdentityKey := r.senderIdentityKey.or l.senderIdentityKey
      customInstructions := r.customInstructions.or l.customInstructions
      scriptLength := r.scriptLength.or l.scriptLength
      scriptOffset := r.scriptOffset.or l.scriptOffset
      lockingScript := r.lockingScript.or l.lockingScript
      spentBy := if r.spendable then none else setId r.spentBy l.spentBy
      updatedAt := max r.updatedAt l.updatedAt }
  | .txLabelMap, (r : TxLabelMap), (l : TxLabelMap) =>
    { l with isDeleted := r.isDeleted, updatedAt := max r.updatedAt l.updatedAt }
  | .outputTagMap, (r : OutputTagMap), (l : OutputTagMap) =>
    { l with isDeleted := r.isDeleted, updatedAt := max r.updatedAt l.updatedAt }
  | .certificate, (r : Certificate), (l : Certificate) =>
    { l with
      certType := r.certType, subject := r.subject, serialNumber := r.serialNumber
      verifier := r.verifier.or l.verifier, revocationOutpoint := r.revocationOutpoint
      signature := r.signature, isDeleted := r.isDeleted
      updatedAt := max r.updatedAt l.updatedAt }
  | .certificateField, (r : CertificateField), (l : CertificateField) =>
    { l with
      fieldValue := r.fieldValue, masterKey := r.masterKey
      updatedAt := max r.updatedAt l.updatedAt }
  | .commission, (r : Commission), (l : Commission) =>
    { l with isRedeemed := r.isRedeemed, updatedAt := max r.updatedAt l.updatedAt }
  | .provenTxReq, (r : ProvenTxReq), (l : ProvenTxReq) =>
    { l with
      provenTxId := r.provenTxId.or l.provenTxId, status := r.status, notified := r.notified
      updatedAt := max r.updatedAt l.updatedAt }

theorem key_stored (e : Entity) (r : e.Row) (id : Nat) : key (e.stored r id) = id := by
  cases e <;> rfl

theorem natural_stored (e : Entity) (r : e.Row) (id : Nat) : e.natural (e.stored r id) = e.natural r := by
  cases e <;> rfl

theorem updatedAt_stored (e : Entity) (r : e.Row) (id : Nat) :
    e.updatedAt (e.stored r id) = toSeconds (e.updatedAt r) := by
  cases e <;> rfl

theorem key_merged (e : Entity) (r l : e.Row) : key (e.merged r l) = key l := by
  cases e <;> rfl

/-- The serial number of a certificate is set too, but only to what it is. -/
theorem natural_merged {e : Entity} {r l : e.Row} (h : e.natural l = e.natural r) :
    e.natural (e.merged r l) = e.natural l := by
  cases e with
  | certificate =>
    simp only [natural, merged, Prod.mk.injEq] at h ⊢
    exact ⟨trivial, h.2.1.symm, trivial⟩
  | _ => rfl

theorem updatedAt_translate {e : Entity} {userId : Nat} {m : SyncMap} {r r₀ : e.Row}
    (h : e.translate userId m r = .ok r₀) : e.updatedAt r₀ = e.updatedAt r := by
  cases e with
  | output | certificateField | commission =>
    obtain ⟨_, _, h⟩ := except_bind_ok h
    cases h
    rfl
  | txLabelMap | outputTagMap =>
    obtain ⟨_, _, h⟩ := except_bind_ok h
    obtain ⟨_, _, h⟩ := except_bind_ok h
    cases h
    rfl
  | _ =>
    cases h
    rfl

end Entity

/-! ## The statements -/

/-- The merger of a kind in terms of the translated row. -/
structure MergeSpec {e : Entity} (merge : Merge e.Row) (r₀ : e.Row) : Prop where
  isLocal : ∀ l, merge.isLocal l = true ↔ e.natural l = e.natural r₀
  insert : merge.insert = e.insertion r₀
  update : ∀ {s s' : Store} {update : e.Row → Stmt} {l : e.Row} {n : Nat},
    update ∈ merge.update → l ∈ s.table e → (update l).exec s = .ok (n, s') →
    s'.table e = (s.table e).update (fun x => key x == key l) (e.merged r₀) (e.key_merged r₀)
  never : merge.update = none ↔ e = .provenTx

/-- A statement that rewrites one row leaves the table that the update computes. -/
theorem table_updated {e : Entity} {s s' : Store} {d : Tables} {l r₀ : e.Row} {f : e.Row → e.Row}
    {p : e.Row → Bool} (hd : s'.toTables = d)
    (hrows : (d.table e).rows = (s.table e).rows.map fun x => if p x then f x else x)
    (hlast : (d.table e).lastId = (s.table e).lastId) (hl : l ∈ s.table e)
    (hp : ∀ x ∈ s.table e, p x = true ↔ x = l) (hfl : f l = e.merged r₀ l) :
    s'.table e = (s.table e).update (fun x => key x == key l) (e.merged r₀) (e.key_merged r₀) := by
  rw [hd]
  refine Table.ext_rows (hrows.trans (List.map_congr_left fun x hx => ?_)) hlast
  by_cases hxl : x = l
  · subst hxl
    rw [if_pos ((hp x hx).mpr rfl), if_pos (by simp), hfl]
  · have hkey : key x ≠ key l := fun h => hxl (Table.eq_of_key_eq hx hl h)
    rw [if_neg (fun h => hxl ((hp x hx).mp h)), if_neg (by simpa using hkey)]

theorem mergeOf_ok {userId : Nat} {m : SyncMap} {e : Entity} {r : e.Row} {merge : Merge e.Row}
    (h : mergeOf userId m e r = .ok merge) :
    ∃ r₀, e.translate userId m r = .ok r₀ ∧ MergeSpec merge r₀ := by
  have hone : ∀ {s : Store} {l : e.Row}, l ∈ s.table e → ∀ x ∈ s.table e,
      (key x == key l) = true ↔ x = l := fun hl x hx =>
    ⟨fun h => Table.eq_of_key_eq hx hl (by simpa using h), fun h => by simp [h]⟩
  cases e with
  | provenTx =>
    cases h
    exact ⟨r, rfl, fun l => by simp [Entity.natural], rfl, nofun, by simp⟩
  | outputBasket | outputTag | txLabel | transaction | certificate | provenTxReq =>
    cases h
    refine ⟨_, rfl, fun l => by simp [Entity.natural, and_assoc], rfl, ?_, by simp⟩
    rintro s s' _ l n ⟨⟩ hl hexec
    refine table_updated (exec_eq hexec).2 rfl rfl hl (hone hl) ?_
    rfl
  | commission =>
    obtain ⟨_, hid, h⟩ := except_bind_ok h
    cases h
    refine ⟨_, by rw [Entity.translate, hid]; rfl, fun l => by simp [Entity.natural, and_assoc], rfl, ?_,
      by simp⟩
    rintro s s' _ l n ⟨⟩ hl hexec
    refine table_updated (exec_eq hexec).2 rfl rfl hl (hone hl) ?_
    rfl
  | output =>
    obtain ⟨_, hid, h⟩ := except_bind_ok h
    cases h
    refine ⟨_, by rw [Entity.translate, hid]; rfl, fun l => by simp [Entity.natural], rfl, ?_,
      by simp⟩
    rintro s s' _ l n ⟨⟩ hl hexec
    refine table_updated (exec_eq hexec).2 rfl rfl hl (hone hl) ?_
    simp [OutputPartial.apply, Entity.merged, setId]
  | certificateField =>
    obtain ⟨_, hid, h⟩ := except_bind_ok h
    cases h
    refine ⟨_, by rw [Entity.translate, hid]; rfl, fun l => by simp [Entity.natural], rfl, ?_,
      by simp⟩
    rintro s s' _ l n ⟨⟩ hl hexec
    refine table_updated (exec_eq hexec).2 rfl rfl hl (fun x hx => ?_) ?_
    swap
    · rfl
    refine ⟨fun h => s.unique.certificateFields.eq hx hl ?_, fun h => by simp [h]⟩
    simp only [Bool.and_eq_true, beq_iff_eq] at h
    exact Prod.ext h.2 h.1
  | txLabelMap =>
    obtain ⟨_, hid, h⟩ := except_bind_ok h
    obtain ⟨_, hid', h⟩ := except_bind_ok h
    cases h
    refine ⟨_, by simp only [Entity.translate, hid, hid']; rfl, fun l => by simp [Entity.natural],
      rfl, ?_, by simp⟩
    rintro s s' _ l n ⟨⟩ hl hexec
    refine table_updated (exec_eq hexec).2 rfl rfl hl (fun x hx => ?_) ?_
    swap
    · rfl
    refine ⟨fun h => s.unique.txLabelMaps.eq hx hl ?_, fun h => by simp [h]⟩
    simp only [Bool.and_eq_true, beq_iff_eq] at h
    exact Prod.ext h.2 h.1
  | outputTagMap =>
    obtain ⟨_, hid, h⟩ := except_bind_ok h
    obtain ⟨_, hid', h⟩ := except_bind_ok h
    cases h
    refine ⟨_, by simp only [Entity.translate, hid, hid']; rfl, fun l => by simp [Entity.natural],
      rfl, ?_, by simp⟩
    rintro s s' _ l n ⟨⟩ hl hexec
    refine table_updated (exec_eq hexec).2 rfl rfl hl (fun x hx => ?_) ?_
    swap
    · rfl
    refine ⟨fun h => s.unique.outputTagMaps.eq hx hl ?_, fun h => by simp [h]⟩
    simp only [Bool.and_eq_true, beq_iff_eq] at h
    exact Prod.ext h.2 h.1

/-- A merger fails exactly where the translation of the row does. -/
theorem mergeOf_error {userId : Nat} {m : SyncMap} {e : Entity} {r : e.Row} {err : WalletError}
    (h : mergeOf userId m e r = .error err) : e.translate userId m r = .error err := by
  cases e with
  | output | certificateField | commission =>
    simp only [mergeOf, Entity.translate] at h ⊢
    cases hid : remapRequiredFk _ _ _ _ with
    | ok id =>
      rw [hid] at h
      cases h
    | error _ =>
      rw [hid] at h
      cases h
      rfl
  | txLabelMap | outputTagMap =>
    simp only [mergeOf, Entity.translate] at h ⊢
    cases hid : remapRequiredFk _ _ _ _ with
    | ok id =>
      rw [hid] at h
      cases hid' : remapRequiredFk _ _ _ _ with
      | ok id' =>
        rw [hid'] at h
        cases h
      | error _ =>
        rw [hid'] at h
        cases h
        rfl
    | error _ =>
      rw [hid] at h
      cases h
      rfl
  | _ => cases h

theorem exec_insertion {e : Entity} {r₀ : e.Row} {s s' : Store} {n : Nat}
    (h : (e.insertion r₀).exec s = .ok (n, s')) :
    n = (s.table e).lastId + 1 ∧
      s'.table e = (s.table e).insert (e.stored r₀) (e.key_stored r₀) := by
  obtain ⟨hn, hs'⟩ := exec_eq h
  rw [hn, hs']
  cases e <;> exact ⟨rfl, rfl⟩

/-! ## One row -/

/-- Only the table of a kind may differ. -/
structure OnlyTable (e : Entity) (s s' : Store) : Prop where
  now : s'.now = s.now
  users : s'.users = s.users
  syncStates : s'.syncStates = s.syncStates
  table : ∀ e', e' ≠ e → s'.table e' = s.table e'

theorem OnlyTable.of_exec {e : Entity} {w : Stmt} {s s' : Store} {n : Nat}
    (h : w.exec s = .ok (n, s')) (hw : w.target = e.target) : OnlyTable e s s' := by
  refine ⟨exec_now h, exec_users h ?_, exec_syncStates h ?_, fun e' he' => exec_table h ?_⟩
  · rw [hw]
    exact e.target_ne_users
  · rw [hw]
    exact e.target_ne_syncStates
  · rw [hw]
    revert he'
    cases e <;> cases e' <;> decide

/-- The local row that the merger finds for a translated row. -/
def Tables.localRow (d : Tables) (e : Entity) (r₀ : e.Row) : Option e.Row :=
  (d.table e).first fun l => decide (e.natural l = e.natural r₀)

/-- What merging a row does to the sync map and to the store. -/
inductive RowMerged (userId : Nat) (e : Entity) (m : SyncMap) (r : e.Row) (s : Store) :
    Except WalletError SyncMap → Store → Prop where
  | untranslated {err : WalletError} (h : e.translate userId (m.received e r) r = .error err) :
      RowMerged userId e m r s (.error err) s
  | refused {r₀ : e.Row} {err : WalletError} (h : e.translate userId (m.received e r) r = .ok r₀)
      (hwrite : ∀ l, s.localRow e r₀ = some l → e ≠ .provenTx ∧ e.updatedAt l < e.updatedAt r) :
      RowMerged userId e m r s (.error err) s
  | kept {r₀ l : e.Row} (h : e.translate userId (m.received e r) r = .ok r₀)
      (hfound : s.localRow e r₀ = some l)
      (hold : e = .provenTx ∨ e.updatedAt r ≤ e.updatedAt l) :
      RowMerged userId e m r s ((m.received e r).link e r (key l)) s
  | updated {r₀ l : e.Row} {s' : Store} (h : e.translate userId (m.received e r) r = .ok r₀)
      (hfound : s.localRow e r₀ = some l) (hkind : e ≠ .provenTx)
      (hnewer : e.updatedAt l < e.updatedAt r)
      (htable : s'.table e =
        (s.table e).update (fun x => key x == key l) (e.merged r₀) (e.key_merged r₀))
      (honly : OnlyTable e s s') :
      RowMerged userId e m r s ((m.received e r).link e r (key l)) s'
  | inserted {r₀ : e.Row} {s' : Store} (h : e.translate userId (m.received e r) r = .ok r₀)
      (hnone : s.localRow e r₀ = none)
      (htable : s'.table e = (s.table e).insert (e.stored r₀) (e.key_stored r₀))
      (honly : OnlyTable e s s') :
      RowMerged userId e m r s ((m.received e r).link e r ((s.table e).lastId + 1)) s'

/-- Noting the local id is the last thing that is done for a row. -/
theorem run_link {e : Entity} {m : SyncMap} {r : e.Row} (id : Nat) {f : SyncMap → MergeState}
    (hf : ∀ map, (f map).map = map) (s : Store) :
    ∃ out, (Prog.ofExcept (m.link e r id) >>= fun map =>
        (pure (f map) : StorageProg MergeState)).run Stmt.exec s = (out, s) ∧
      out.map MergeState.map = m.link e r id := by
  cases m.link e r id with
  | error err => exact ⟨.error err, rfl, rfl⟩
  | ok map => exact ⟨.ok (f map), rfl, congrArg Except.ok (hf map)⟩

/-- The local row is left, rewritten, or the engine refuses the statement. -/
theorem run_updateLocal {e : Entity} {merge : Merge e.Row} {r₀ r l : e.Row} {s : Store}
    (hspec : MergeSpec merge r₀)
    (htarget : ∀ update ∈ merge.update, ∀ l, (update l).target = e.target) (hl : l ∈ s.table e) :
    ((updateLocal e merge l r).run Stmt.exec s = (.ok 0, s) ∧
        (e = .provenTx ∨ e.updatedAt r ≤ e.updatedAt l)) ∨
      (∃ s', (updateLocal e merge l r).run Stmt.exec s = (.ok 1, s') ∧ e ≠ .provenTx ∧
        e.updatedAt l < e.updatedAt r ∧
        s'.table e =
          (s.table e).update (fun x => key x == key l) (e.merged r₀) (e.key_merged r₀) ∧
        OnlyTable e s s') ∨
      ∃ err, (updateLocal e merge l r).run Stmt.exec s = (.error err, s) ∧ e ≠ .provenTx ∧
        e.updatedAt l < e.updatedAt r := by
  unfold updateLocal
  cases hm : merge.update with
  | none => exact .inl ⟨rfl, .inl (hspec.never.mp hm)⟩
  | some update =>
    by_cases hnewer : e.updatedAt l < e.updatedAt r
    · have hkind : e ≠ .provenTx := fun h => by simp [hspec.never.mpr h] at hm
      simp only [shouldUpdate, hnewer, decide_true, if_true]
      cases hexec : (update l).exec s with
      | error err =>
        refine .inr (.inr ⟨err, ?_, hkind, trivial⟩)
        exact run_bind_of_error (run_bind_of_error (run_exec_error hexec))
      | ok answer =>
        refine .inr (.inl ⟨answer.2, ?_, hkind, trivial, hspec.update hm hl hexec,
          OnlyTable.of_exec hexec (htarget update hm l)⟩)
        exact run_bind_of_ok (run_bind_of_ok (run_exec_ok hexec))
    · simp only [shouldUpdate, hnewer, decide_false, Bool.false_eq_true, if_false]
      exact .inl ⟨rfl, .inr (Nat.le_of_not_lt hnewer)⟩

/-- The run of the merger on one row; `res` is what becomes of the map. -/
theorem run_mergeRow (userId : Nat) (e : Entity) (st : MergeState) (r : e.Row) (s : Store) :
    ∃ out res s', (mergeRow userId e st r).run Stmt.exec s = (out, s') ∧
      out.map MergeState.map = res ∧ RowMerged userId e st.map r s res s' := by
  unfold mergeRow
  simp only
  cases hmerge : mergeOf userId (st.map.received e r) e r with
  | error err => exact ⟨.error err, .error err, s, rfl, rfl, .untranslated (mergeOf_error hmerge)⟩
  | ok merge =>
    obtain ⟨r₀, htranslate, hspec⟩ := mergeOf_ok hmerge
    obtain ⟨hinsert, hupdate⟩ := mergeOf_target hmerge
    have hfirst : (s.table e).first merge.isLocal = s.localRow e r₀ := by
      unfold Tables.localRow
      refine congrArg _ (funext fun l => ?_)
      rw [Bool.eq_iff_iff, hspec.isLocal, decide_eq_true_iff]
    show ∃ out res s', (mergeWith e st (st.map.received e r) merge r).run Stmt.exec s = _ ∧ _
    unfold mergeWith
    rw [run_bind_of_ok (run_ask _ s), hfirst]
    cases hfound : s.localRow e r₀ with
    | none =>
      cases hexec : merge.insert.exec s with
      | error err =>
        exact ⟨.error err, .error err, s, run_bind_of_error (run_exec_error hexec), rfl,
          .refused htranslate (by simp [hfound])⟩
      | ok answer =>
        obtain ⟨id, s'⟩ := answer
        have honly := OnlyTable.of_exec hexec hinsert
        have hexec' := hexec
        rw [hspec.insert] at hexec'
        obtain ⟨rfl, htable⟩ := exec_insertion hexec'
        obtain ⟨out, hrun, hout⟩ := @run_link e (st.map.received e r) r ((s.table e).lastId + 1)
          (fun map => { st with map, inserts := st.inserts + 1 }) (fun _ => rfl) s'
        exact ⟨out, _, s', (run_bind_of_ok (run_exec_ok hexec)).trans hrun, hout,
          .inserted htranslate hfound htable honly⟩
    | some l =>
      have hmem : l ∈ s.table e := (Table.first_some hfound).1
      rcases run_updateLocal (r := r) hspec hupdate hmem with
        ⟨hrun, hold⟩ | ⟨s', hrun, hkind, hnewer, htable, honly⟩ | ⟨err, hrun, hnewer⟩
      · obtain ⟨out, hlast, hout⟩ := @run_link e (st.map.received e r) r (key l)
          (fun map => { st with map, updates := st.updates + 0 }) (fun _ => rfl) s
        exact ⟨out, _, s, (run_bind_of_ok hrun).trans hlast, hout, .kept htranslate hfound hold⟩
      · obtain ⟨out, hlast, hout⟩ := @run_link e (st.map.received e r) r (key l)
          (fun map => { st with map, updates := st.updates + 1 }) (fun _ => rfl) s'
        exact ⟨out, _, s', (run_bind_of_ok hrun).trans hlast, hout,
          .updated htranslate hfound hkind hnewer htable honly⟩
      · refine ⟨.error err, .error err, s, run_bind_of_error hrun, rfl, .refused htranslate ?_⟩
        intro l' hl'
        rw [hfound, Option.some.injEq] at hl'
        exact hl' ▸ hnewer

/-! ## Ids that are translated -/

/-- An id of the other store that the sync map translates. -/
def SyncMap.Maps (m : SyncMap) (e : Entity) (id : Nat) : Prop :=
  ((m.get e).getLocalId id).isSome

theorem mapId_isSome {m m' : EntitySyncMap} {foreignId localId : Nat}
    (h : m.mapId foreignId localId = .ok m') :
    (∀ id, (m.getLocalId id).isSome → (m'.getLocalId id).isSome) ∧ (m'.getLocalId foreignId).isSome := by
  unfold EntitySyncMap.mapId at h
  cases hfound : m.getLocalId foreignId with
  | some existing =>
    simp only [hfound] at h
    split at h
    · cases h
      exact ⟨fun _ h => h, by rw [hfound]; rfl⟩
    · cases h
  | none =>
    simp only [hfound] at h
    cases h
    simp only [EntitySyncMap.getLocalId, Option.isSome_map, List.find?_append, Option.isSome_or]
    exact ⟨fun id h => by rw [h, Bool.true_or], by simp⟩

theorem maps_received {m : SyncMap} {e p : Entity} {r : e.Row} {id : Nat} :
    (m.received e r).Maps p id ↔ m.Maps p id := by
  unfold SyncMap.Maps SyncMap.received
  by_cases hp : p = e
  · subst hp
    have hids : ((m.get p).updateMax (p.updatedAt r)).idMap = (m.get p).idMap := by
      unfold EntitySyncMap.updateMax
      split
      · split <;> rfl
      · rfl
    simp only [SyncMap.get_set_self, EntitySyncMap.getLocalId, hids]
  · rw [SyncMap.get_set_of_ne m _ hp]

theorem link_maps {m m' : SyncMap} {e : Entity} {r : e.Row} {localId : Nat}
    (h : m.link e r localId = .ok m') :
    (∀ p id, m.Maps p id → m'.Maps p id) ∧ (e.hasId = true → m'.Maps e (key r)) := by
  unfold SyncMap.link at h
  split at h
  · obtain ⟨esm, hesm, h⟩ := except_bind_ok h
    cases h
    obtain ⟨hkept, hnew⟩ := mapId_isSome hesm
    refine ⟨fun p id hp => ?_, fun _ => ?_⟩
    · unfold SyncMap.Maps
      by_cases he : p = e
      · subst he
        rw [SyncMap.get_set_self]
        exact hkept id hp
      · rwa [SyncMap.get_set_of_ne m _ he]
    · rw [SyncMap.Maps, SyncMap.get_set_self]
      exact hnew
  · cases h
    exact ⟨fun _ _ h => h, fun hid => absurd hid ‹_›⟩

/-- Merging keeps the ids that are translated and adds that of the row. -/
theorem RowMerged.maps {userId : Nat} {e : Entity} {m m' : SyncMap} {r : e.Row} {s s' : Store}
    (h : RowMerged userId e m r s (.ok m') s') :
    (∀ p id, m.Maps p id → m'.Maps p id) ∧ (e.hasId = true → m'.Maps e (key r)) := by
  obtain ⟨id, hlink⟩ : ∃ id, (m.received e r).link e r id = .ok m' := by
    generalize hres : Except.ok m' = res at h
    cases h with
    | untranslated _ | refused _ _ => cases hres
    | kept _ _ _ | updated _ _ _ _ _ _ | inserted _ _ _ _ => exact ⟨_, rfl⟩
  obtain ⟨hkept, hnew⟩ := link_maps hlink
  exact ⟨fun p id hp => hkept p id (maps_received.mpr hp), hnew⟩

theorem RowMerged.users {userId : Nat} {e : Entity} {m : SyncMap} {r : e.Row} {s s' : Store}
    {res : Except WalletError SyncMap} (h : RowMerged userId e m r s res s') : s'.users = s.users := by
  cases h with
  | untranslated _ | refused _ _ | kept _ _ _ => rfl
  | updated _ _ _ _ _ honly | inserted _ _ _ honly => exact honly.users

/-- The ids in a row without whose translation the merger refuses it. -/
def Entity.required : (e : Entity) → e.Row → List (Entity × Nat)
  | .output, (r : Output) => [(.transaction, r.transactionId)]
  | .txLabelMap, (r : TxLabelMap) => [(.txLabel, r.txLabelId), (.transaction, r.transactionId)]
  | .outputTagMap, (r : OutputTagMap) => [(.outputTag, r.outputTagId), (.output, r.outputId)]
  | .certificateField, (r : CertificateField) => [(.certificate, r.certificateId)]
  | .commission, (r : Commission) => [(.transaction, r.transactionId)]
  | _, _ => []

/-! ## The rows of a chunk -/

theorem Entity.mem_mergeOrder (e : Entity) : e ∈ mergeOrder := by
  cases e <;> decide

/-- The rows of a chunk in the order in which they are merged. -/
def SyncChunk.items (chunk : SyncChunk) : List (Σ e : Entity, e.Row) :=
  Entity.mergeOrder.flatMap fun e => ((chunk.rows e).getD []).map (Sigma.mk e)

theorem SyncChunk.mem_items {chunk : SyncChunk} {x : Σ e : Entity, e.Row} :
    x ∈ chunk.items ↔ x.2 ∈ (chunk.rows x.1).getD [] := by
  unfold SyncChunk.items
  rw [List.mem_flatMap]
  constructor
  · rintro ⟨e, _, hx⟩
    obtain ⟨r, hr, rfl⟩ := List.mem_map.mp hx
    exact hr
  · exact fun hr => ⟨x.1, Entity.mem_mergeOrder x.1, List.mem_map.mpr ⟨x.2, hr, rfl⟩⟩

def mergeItem (userId : Nat) (st : MergeState) (x : Σ e : Entity, e.Row) : StorageProg MergeState :=
  mergeRow userId x.1 st x.2

theorem foldlM_mergeEntity (userId : Nat) (chunk : SyncChunk) (st : MergeState) :
    Entity.mergeOrder.foldlM (mergeEntity userId chunk) st = chunk.items.foldlM (mergeItem userId) st := by
  unfold SyncChunk.items
  generalize Entity.mergeOrder = es
  induction es generalizing st with
  | nil => rfl
  | cons e es ih =>
    rw [List.foldlM_cons, List.flatMap_cons, List.foldlM_append, List.foldlM_map]
    exact bind_congr fun st' => ih st'

/-- Rows that were merged one after the other. In between, the tables of the kinds stay as they
are. -/
inductive MergedItems (userId : Nat) :
    List (Σ e : Entity, e.Row) → SyncMap → Store → SyncMap → Store → Prop
  | nil {m : SyncMap} {s s' : Store} (same : ∀ e, s'.table e = s.table e) :
      MergedItems userId [] m s m s'
  | cons {x : Σ e : Entity, e.Row} {items : List (Σ e : Entity, e.Row)} {m m₁ m' : SyncMap}
      {s₀ s s₁ s' : Store} (same : ∀ e, s.table e = s₀.table e)
      (row : RowMerged userId x.1 m x.2 s (.ok m₁) s₁) (rest : MergedItems userId items m₁ s₁ m' s') :
      MergedItems userId (x :: items) m s₀ m' s'

namespace MergedItems

variable {userId : Nat} {items items' : List (Σ e : Entity, e.Row)} {m m₁ m' : SyncMap}
  {s s₁ s' : Store}

theorem congr_left (h : MergedItems userId items m s m' s') (hs : ∀ e, s.table e = s₁.table e) :
    MergedItems userId items m s₁ m' s' := by
  cases h with
  | nil same => exact .nil fun e => (same e).trans (hs e)
  | cons same row rest => exact .cons (fun e => (same e).trans (hs e)) row rest

theorem congr_right (h : MergedItems userId items m s m' s') (hs : ∀ e, s₁.table e = s'.table e) :
    MergedItems userId items m s m' s₁ := by
  induction h with
  | nil same => exact .nil fun e => (hs e).trans (same e)
  | cons same row _ ih => exact .cons same row (ih hs)

/-- The ids that are translated after some rows: those before, and those of the rows. -/
theorem maps (h : MergedItems userId items m s m' s') :
    (∀ p id, m.Maps p id → m'.Maps p id) ∧ ∀ x ∈ items, x.1.hasId = true → m'.Maps x.1 (key x.2) := by
  induction h with
  | nil _ => exact ⟨fun _ _ h => h, by simp⟩
  | cons _ row _ ih =>
    refine ⟨fun p id hp => ih.1 p id (row.maps.1 p id hp), ?_⟩
    rw [List.forall_mem_cons]
    exact ⟨fun hid => ih.1 _ _ (row.maps.2 hid), ih.2⟩

theorem append (h : MergedItems userId items m s m₁ s₁) (h' : MergedItems userId items' m₁ s₁ m' s') :
    MergedItems userId (items ++ items') m s m' s' := by
  induction h with
  | nil same => exact h'.congr_left same
  | cons same row _ ih => exact .cons same row (ih h')

end MergedItems

/-- The run of the merger on some rows. -/
theorem wp_mergeItems {userId : Nat} {items : List (Σ e : Entity, e.Row)} {st : MergeState} {s : Store} :
    wp Stmt.exec (items.foldlM (mergeItem userId) st)
      (fun st' s' => MergedItems userId items st.map s st'.map s') (fun _ => True) s := by
  induction items generalizing st s with
  | nil => exact MergedItems.nil fun _ => rfl
  | cons x items ih =>
    obtain ⟨out, res, s₁, hrun, hout, hmerged⟩ := run_mergeRow userId x.1 st x.2 s
    have hrow : wp Stmt.exec (mergeItem userId st x)
        (fun st₁ s₁ => RowMerged userId x.1 st.map x.2 s (.ok st₁.map) s₁) (fun _ => True) s := by
      unfold wp mergeItem
      rw [hrun]
      cases out with
      | error err => trivial
      | ok st₁ =>
        cases hout
        exact hmerged
    rw [List.foldlM_cons, wp_bind]
    refine wp_mono hrow (fun st₁ s₁ h₁ => ?_) fun _ h => h
    exact wp_mono ih (fun st₂ s₂ h₂ => .cons (fun _ => rfl) h₁ h₂) fun _ h => h

end WalletToolbox.Storage
