import WalletToolbox.Laws.BeefHelpers
import WalletToolbox.Laws.Hydration
import WalletToolbox.Lib.Frame
import WalletToolbox.Storage.Purge

/-! # What a purge leaves

A purged transaction takes its outputs with it and the claims that it held, and nothing refers to it
afterwards.
The BEEFs of the spendable outputs name every transaction that their walks collect, so these stay, and
the walks find what they found before. -/

namespace WalletToolbox.Storage

open WalletToolbox.Lib
open WalletToolbox.Lib.Prog hiding pure exec

section Purge

variable {sdk : Sdk} {bumps : BumpSdk} {d d' : Tables} {s s' : Store}

/-! ## The txids of a BEEF from storage -/

/-- The id of a raw transaction. -/
def rawTxid (sdk : Sdk) (raw : Bytes) : Except String String := do
  let tx ← sdk.parseTx raw
  sdk.txidOf tx

/-- Every transaction with a txid has the raw transaction that it names. -/
def NamesRawTxs (sdk : Sdk) (d : Tables) : Prop :=
  ∀ t ∈ d.transactions, ∀ txid, t.txid = some txid →
    ∃ raw, t.rawTx = some raw ∧ rawTxid sdk raw = .ok txid

/-- The merge operations take unions, and the transactions of a BEEF are those of its bytes. -/
structure UnitesTxids (sdk : Sdk) (bumps : BumpSdk) : Prop where
  mergeBump : ∀ b bump b' i, bumps.mergeBump b bump = .ok (b', i) → b.txids ⊆ b'.txids
  mergeProvenTx : ∀ b raw i b', bumps.mergeProvenTx b raw i = .ok b' → b.txids ⊆ b'.txids
  mergeRawTx : ∀ b raw b', sdk.mergeRawTx b raw = .ok b' →
    b.txids ⊆ b'.txids ∧ ∀ txid, rawTxid sdk raw = .ok txid → txid ∈ b'.txids
  mergeBeef : ∀ b other b', sdk.mergeBeef b other = .ok b' → b.txids ⊆ b'.txids
  sortTxs : ∀ b, b.txids ⊆ (sdk.sortTxs b).txids
  parseBeef : ∀ b bytes b', sdk.beefBytes b = .ok bytes → sdk.parseBeef bytes = .ok b' →
    b.txids ⊆ b'.txids

/-- A collected transaction without a proof is one of the store, under its own id. -/
def CollectedTx.Named (sdk : Sdk) (c : CollectedTx) : Prop :=
  c.merklePath = none → c.txidOnly = false ∧ rawTxid sdk c.rawTx = .ok c.txid

theorem NamesRawTxs.hasRawTxs (h : NamesRawTxs sdk d) : HasRawTxs d := by
  intro t ht htxid
  obtain ⟨txid, htxid⟩ := Option.isSome_iff_exists.mp htxid
  obtain ⟨raw, hraw, -⟩ := h t ht txid htxid
  rw [hraw, Option.isSome_some]

theorem walkInput_named {walk : String → Walk → Except String Walk}
    (hwalk : ∀ txid w w', walk txid w = .ok w' → (∀ c ∈ w.collected, c.Named sdk) →
      ∀ c ∈ w'.collected, c.Named sdk) {w w' : Walk} {input : TxInput}
    (h : walkInput walk [] w input = .ok w') (hw : ∀ c ∈ w.collected, c.Named sdk) :
    ∀ c ∈ w'.collected, c.Named sdk := by
  unfold walkInput at h
  split at h
  · cases h; exact hw
  · split at h
    · cases h; exact hw
    · rw [if_neg (by simp)] at h
      exact hwalk _ _ _ h hw

theorem Walk.push_named {w : Walk} {c : CollectedTx} (hw : ∀ c ∈ w.collected, c.Named sdk)
    (hc : c.Named sdk) : ∀ c' ∈ (w.push c).collected, c'.Named sdk := by
  intro c' hc'
  rcases List.mem_append.mp hc' with hold | hnew
  · exact hw c' hold
  · rwa [List.mem_singleton.mp hnew]

theorem collectTxRecursive_named (hnames : NamesRawTxs sdk d) {depth : Nat} {txid : String} {w w' : Walk}
    (h : collectTxRecursive sdk d .no [] depth txid w = .ok w') (hw : ∀ c ∈ w.collected, c.Named sdk) :
    ∀ c ∈ w'.collected, c.Named sdk := by
  induction depth generalizing txid w w' with
  | zero => cases h; exact hw
  | succ depth ih =>
    rw [collectTxRecursive_succ] at h
    split at h
    · cases h; exact hw
    · split at h
      · rw [if_neg nofun] at h
        cases h
        refine Walk.push_named hw ?_
        exact nofun
      · split at h
        · cases h
          simpa [Walk.pushKnown, Walk.visit] using hw
        · rename_i t hfirst
          obtain ⟨ht, htxid⟩ := Table.first_some hfirst
          obtain ⟨raw, hraw, hnamed⟩ := hnames t ht txid (by simpa using htxid)
          rw [walkStored, if_neg nofun, hraw] at h
          obtain ⟨parsed, -, h⟩ := bind_ok_iff.mp h
          obtain ⟨w₁, hinputs, h⟩ := bind_ok_iff.mp h
          cases h
          refine Walk.push_named ?_ ?_
          case refine_2 => exact fun _ => ⟨rfl, hnamed⟩
          exact foldlM_keeps (I := fun w => ∀ c ∈ w.collected, c.Named sdk)
            (fun w₂ hw₂ input w₃ hw₃ => walkInput_named (fun _ _ _ => ih) hw₃ hw₂) hw hinputs

/-- What is done last for a collected transaction. -/
def mergeInputBeef (sdk : Sdk) (c : CollectedTx) (b : Beef) : Except String Beef :=
  match c.inputBeef with
  | some inputBeef => sdk.mergeBeef b inputBeef
  | none => .ok b

theorem addCollected_txids (h : UnitesTxids sdk bumps) {b b' : Beef} {c : CollectedTx}
    (hadd : addCollected sdk bumps b c = .ok b') :
    b.txids ⊆ b'.txids ∧ (c.Named sdk → c.merklePath = none → c.txid ∈ b'.txids) := by
  unfold addCollected at hadd
  split at hadd
  · rename_i honly
    refine ⟨?_, fun hnamed hproof => ?_⟩
    · split at hadd
      · cases hadd
        rw [Beef.txids, Beef.txids, List.map_append]
        exact List.subset_append_left _ _
      · cases hadd; exact List.Subset.refl _
    · rw [(hnamed hproof).1] at honly
      cases honly
  · have hlast : ∀ {b₁ : Beef}, mergeInputBeef sdk c b₁ = .ok b' → b₁.txids ⊆ b'.txids := by
      intro b₁ hrest
      unfold mergeInputBeef at hrest
      split at hrest
      · exact h.mergeBeef _ _ _ hrest
      · cases hrest; exact List.Subset.refl _
    cases hpath : c.merklePath with
    | some bytes =>
      simp only [hpath] at hadd
      obtain ⟨bump, -, hadd⟩ := bind_ok_iff.mp hadd
      obtain ⟨⟨b₂, i⟩, hbump, hadd⟩ := bind_ok_iff.mp hadd
      obtain ⟨b₁, hmerge, hadd⟩ := bind_ok_iff.mp hadd
      refine ⟨?_, by rintro _ ⟨⟩⟩
      exact List.Subset.trans (List.Subset.trans (h.mergeBump _ _ _ _ hbump)
        (h.mergeProvenTx _ _ _ _ hmerge)) (hlast hadd)
    | none =>
      simp only [hpath] at hadd
      obtain ⟨b₁, hmerge, hadd⟩ := bind_ok_iff.mp hadd
      obtain ⟨hkeeps, hmerged⟩ := h.mergeRawTx _ _ _ hmerge
      exact ⟨List.Subset.trans hkeeps (hlast hadd),
        fun hnamed _ => hlast hadd (hmerged _ (hnamed hpath).2)⟩

theorem foldlM_addCollected_txids (h : UnitesTxids sdk bumps) {collected : List CollectedTx} {b b' : Beef}
    (hadd : collected.foldlM (addCollected sdk bumps) b = .ok b') :
    b.txids ⊆ b'.txids ∧ ∀ c ∈ collected, c.Named sdk → c.merklePath = none → c.txid ∈ b'.txids := by
  induction collected generalizing b with
  | nil => cases hadd; exact ⟨List.Subset.refl _, nofun⟩
  | cons c rest ih =>
    rw [List.foldlM_cons] at hadd
    obtain ⟨b₁, hfirst, hrest⟩ := bind_ok_iff.mp hadd
    obtain ⟨hkeeps, hin⟩ := addCollected_txids h hfirst
    obtain ⟨hkeeps', hins⟩ := ih hrest
    exact ⟨List.Subset.trans hkeeps hkeeps', List.forall_mem_cons.mpr
      ⟨fun hnamed hproof => hkeeps' (hin hnamed hproof), hins⟩⟩

/-- The bytes of a BEEF from storage name every stored transaction that was collected. -/
theorem buildBeefFromCollected_txids (h : UnitesTxids sdk bumps) {collected : List CollectedTx}
    {bytes : Bytes} {beef : Beef} (hbuild : buildBeefFromCollected sdk bumps collected = .ok (some bytes))
    (hparse : sdk.parseBeef bytes = .ok beef) {c : CollectedTx} (hc : c ∈ collected)
    (hnamed : c.Named sdk) (hproof : c.merklePath = none) : c.txid ∈ beef.txids := by
  unfold buildBeefFromCollected at hbuild
  split at hbuild
  · cases hbuild
  · obtain ⟨b, hfold, hbuild⟩ := bind_ok_iff.mp hbuild
    obtain ⟨bytes', hbytes, hbuild⟩ := bind_ok_iff.mp hbuild
    cases hbuild
    exact h.parseBeef _ _ _ hbytes hparse
      (h.sortTxs _ ((foldlM_addCollected_txids h hfold).2 c hc hnamed hproof))

/-! ## The statements -/

section Statements

variable {id : Nat} {status : ProvenTxReqStatus} {before : Int}

theorem key_clearSpentBy (o : Output) : key o.clearSpentBy = key o := rfl

/-- A statement whose result satisfies the constraints is executed. -/
theorem wp_purgeStmt {w : PurgeStmt} {Q : Nat → Store → Prop} {E : Store → Prop}
    (hf : (w.apply s.toTables).2.ForeignKeys) (hu : (w.apply s.toTables).2.UniqueKeys)
    (hQ : ∀ n s', s'.toTables = (w.apply s.toTables).2 → Q n s') :
    wp PurgeStmt.exec (Prog.exec w) Q E s := by
  have hexec : w.exec s = .ok ((w.apply s.toTables).1, ⟨(w.apply s.toTables).2, hu, hf⟩) := by
    simp only [PurgeStmt.exec, dif_pos hf, dif_pos hu]
  refine wp_exec (fun n s' h => ?_) fun e h => ?_
  · rw [hexec] at h
    cases h
    exact hQ _ _ rfl
  · rw [hexec] at h
    cases h

theorem unique_purgeStmt (h : d.UniqueKeys) (w : PurgeStmt) : (w.apply d).2.UniqueKeys := by
  cases w with
  | deleteReqs => exact { h with provenTxReqs := h.provenTxReqs.delete _ }
  | clearSpentBy => exact { h with outputs := h.outputs.update key_clearSpentBy fun _ => rfl }
  | deleteTagMaps => exact { h with outputTagMaps := h.outputTagMaps.delete _ }
  | deleteOutputs => exact { h with outputs := h.outputs.delete _ }
  | deleteLabelMaps => exact { h with txLabelMaps := h.txLabelMaps.delete _ }
  | deleteCommissions => exact { h with commissions := h.commissions.delete _ }
  | deleteTransaction => exact { h with transactions := h.transactions.delete _ }

/-- No row refers to what the statement deletes. -/
def PurgeStmt.Unreferenced (d : Tables) : PurgeStmt → Prop
  | .deleteOutputs id => ∀ m ∈ d.outputTagMaps, ∀ o ∈ d.outputs, o.outputId = m.outputId →
    o.transactionId ≠ id
  | .deleteTransaction id => (∀ o ∈ d.outputs, o.transactionId ≠ id ∧ o.spentBy ≠ some id) ∧
    (∀ m ∈ d.txLabelMaps, m.transactionId ≠ id) ∧ ∀ c ∈ d.commissions, c.transactionId ≠ id
  | _ => True

theorem foreign_purgeStmt (h : d.ForeignKeys) {w : PurgeStmt} (hw : w.Unreferenced d) :
    (w.apply d).2.ForeignKeys := by
  cases w with
  | deleteReqs => exact { h with reqProvenTx := h.reqProvenTx.delete _ }
  | clearSpentBy =>
    exact { h with
      outputUser := h.outputUser.update key_clearSpentBy fun _ => rfl
      outputTransaction := h.outputTransaction.update key_clearSpentBy fun _ => rfl
      outputBasket := h.outputBasket.update key_clearSpentBy fun _ _ _ _ hi => .inl hi
      outputSpentBy := h.outputSpentBy.update key_clearSpentBy fun _ _ _ _ hi => nomatch hi
      tagMapOutput := h.tagMapOutput.update_target key_clearSpentBy }
  | deleteTagMaps =>
    exact { h with tagMapTag := h.tagMapTag.delete _, tagMapOutput := h.tagMapOutput.delete _ }
  | deleteOutputs id =>
    exact { h with
      outputUser := h.outputUser.delete _
      outputTransaction := h.outputTransaction.delete _
      outputBasket := h.outputBasket.delete _
      outputSpentBy := h.outputSpentBy.delete _
      tagMapOutput := h.tagMapOutput.delete_target fun m hm o ho hkey =>
        beq_eq_false_iff_ne.mpr (hw m hm o ho hkey) }
  | deleteLabelMaps =>
    exact { h with
      labelMapLabel := h.labelMapLabel.delete _
      labelMapTransaction := h.labelMapTransaction.delete _ }
  | deleteCommissions =>
    exact { h with
      commissionUser := h.commissionUser.delete _
      commissionTransaction := h.commissionTransaction.delete _ }
  | deleteTransaction id =>
    obtain ⟨houtputs, hmaps, hcommissions⟩ := hw
    exact { h with
      transactionUser := h.transactionUser.delete _
      transactionProvenTx := h.transactionProvenTx.delete _
      outputTransaction := h.outputTransaction.delete_target fun o ho t _ hkey =>
        beq_eq_false_iff_ne.mpr fun hid => (houtputs o ho).1 (hkey.symm.trans hid)
      outputSpentBy := h.outputSpentBy.delete_target fun o ho t _ hkey =>
        beq_eq_false_iff_ne.mpr fun hid => (houtputs o ho).2 (hkey.trans (congrArg some hid))
      labelMapTransaction := h.labelMapTransaction.delete_target fun m hm t _ hkey =>
        beq_eq_false_iff_ne.mpr fun hid => hmaps m hm (hkey.symm.trans hid)
      commissionTransaction := h.commissionTransaction.delete_target fun c hc t _ hkey =>
        beq_eq_false_iff_ne.mpr fun hid => hcommissions c hc (hkey.symm.trans hid) }

/-- A statement that leaves no dangling reference is executed. -/
theorem wp_unreferenced {w : PurgeStmt} {Q : Nat → Store → Prop} {E : Store → Prop}
    (hw : w.Unreferenced s.toTables) (hQ : ∀ n s', s'.toTables = (w.apply s.toTables).2 → Q n s') :
    wp PurgeStmt.exec (Prog.exec w) Q E s :=
  wp_purgeStmt (foreign_purgeStmt s.foreign hw) (unique_purgeStmt s.unique w) hQ

end Statements

/-! ## A transaction goes -/

/-- Spendable outputs are not claimed. -/
def SpendableFree (d : Tables) : Prop :=
  ∀ o ∈ d.outputs, o.spendable = true → o.spentBy = none

/-- The output after transactions are gone that may have claimed it. -/
def Output.freed (ids : List Nat) (o : Output) : Output :=
  { o with spentBy := o.spentBy.filter fun id => o.spendable || !ids.contains id }

/-- The transactions with the ids are gone, with their outputs and their claims. -/
structure Purged (ids : List Nat) (d d' : Tables) : Prop where
  transactions : d'.transactions = d.transactions.delete (ids.contains ·.transactionId)
  provenTxs : d'.provenTxs = d.provenTxs
  outputs : ∀ o', o' ∈ d'.outputs ↔
    ∃ o ∈ d.outputs, ids.contains o.transactionId = false ∧ o' = o.freed ids

@[simp] theorem Output.freed_transactionId (ids : List Nat) (o : Output) :
    (o.freed ids).transactionId = o.transactionId := rfl

/-- An output that none of the transactions claims stays as it is. -/
theorem Output.freed_eq_self {ids : List Nat} {o : Output}
    (h : ∀ id, o.spentBy = some id → o.spendable = false → id ∉ ids) : o.freed ids = o := by
  have hclaim : (o.spentBy.filter fun id => o.spendable || !ids.contains id) = o.spentBy := by
    cases hspent : o.spentBy with
    | none => rfl
    | some id =>
      cases hspendable : o.spendable with
      | true => simp
      | false => simpa using h id hspent hspendable
  exact congrArg (fun claim => { o with spentBy := claim }) hclaim

theorem Output.freed_append (ids : List Nat) (id : Nat) (o : Output) :
    (o.freed ids).freed [id] = o.freed (ids ++ [id]) := by
  simp only [Output.freed, Option.filter_filter]
  refine congrArg (fun p => { o with spentBy := o.spentBy.filter p }) (funext fun claimant => ?_)
  cases o.spendable <;> simp [Bool.and_comm]

theorem SpendableFree.purged {ids : List Nat} (h : SpendableFree d) (hpurged : Purged ids d d') :
    SpendableFree d' := by
  intro o' ho' hspendable
  obtain ⟨o, ho, -, rfl⟩ := (hpurged.outputs o').mp ho'
  have hclaim : o.spentBy = none := h o ho hspendable
  simp [Output.freed, hclaim]

theorem Purged.nil (d : Tables) : Purged [] d d where
  transactions := (Table.delete_none fun _ _ => rfl).symm
  provenTxs := rfl
  outputs o' := by
    have hfreed : ∀ o : Output, o.freed [] = o := fun o => Output.freed_eq_self fun _ _ _ => List.not_mem_nil
    simp [hfreed]

theorem Purged.snoc {ids : List Nat} {id : Nat} {d'' : Tables} (h : Purged ids d d')
    (h' : Purged [id] d' d'') : Purged (ids ++ [id]) d d'' where
  transactions := by
    rw [h'.transactions, h.transactions, Table.delete_delete]
    exact Table.delete_congr fun t _ => by simp [List.contains_eq_mem]
  provenTxs := h'.provenTxs.trans h.provenTxs
  outputs o'' := by
    rw [h'.outputs]
    constructor
    · rintro ⟨o', ho', hid, rfl⟩
      obtain ⟨o, ho, hids, rfl⟩ := (h.outputs o').mp ho'
      refine ⟨o, ho, ?_, Output.freed_append ids id o⟩
      simp_all [List.contains_eq_mem]
    · rintro ⟨o, ho, hids, rfl⟩
      refine ⟨o.freed ids, (h.outputs _).mpr ⟨o, ho, ?_, rfl⟩, ?_, (Output.freed_append ids id o).symm⟩
      all_goals simp_all [List.contains_eq_mem]

/-- The outputs after the claims of a transaction are cleared and its own outputs are deleted. -/
theorem mem_purgedOutputs {id : Nat} {o' : Output} :
    o' ∈ (d.outputs.update (spentIn id) Output.clearSpentBy key_clearSpentBy).delete
        (·.transactionId == id) ↔
      ∃ o ∈ d.outputs, [id].contains o.transactionId = false ∧ o' = o.freed [id] := by
  have hfreed : ∀ o : Output, (if spentIn id o then o.clearSpentBy else o) = o.freed [id] := by
    intro o
    by_cases hspent : spentIn id o = true
    · have hclaim : o.spendable = false ∧ o.spentBy = some id := by simpa [spentIn] using hspent
      simp [hspent, Output.freed, Output.clearSpentBy, hclaim, Option.filter]
    · rw [if_neg hspent, Output.freed_eq_self]
      intro claimant hclaim hspendable hin
      rw [List.mem_singleton.mp hin] at hclaim
      exact hspent (by simp [spentIn, hclaim, hspendable])
  rw [Table.mem_delete, Table.mem_update]
  simp only [hfreed]
  constructor
  · rintro ⟨⟨o, ho, rfl⟩, hid⟩
    exact ⟨o, ho, by simpa [List.contains_eq_mem] using hid, rfl⟩
  · rintro ⟨o, ho, hid, rfl⟩
    exact ⟨⟨o, ho, rfl⟩, by simpa [List.contains_eq_mem] using hid⟩

/-- A transaction whose spendable claims are none can go. -/
theorem wp_purgeTransaction (hfree : SpendableFree s.toTables) (id : Nat) :
    wp PurgeStmt.exec (purgeTransaction id) (fun _ s' => Purged [id] s.toTables s'.toTables)
      (fun _ => False) s := by
  simp only [purgeTransaction, wp_bind]
  refine wp_unreferenced trivial fun _ s₁ h₁ => ?_
  have hclaims : ∀ o ∈ s₁.outputs, o.spentBy ≠ some id := by
    intro o ho hclaim
    rw [h₁] at ho
    have ho : o ∈ s.outputs.update (spentIn id) Output.clearSpentBy key_clearSpentBy := ho
    rcases Table.mem_update_cases ho with ⟨hold, hspent⟩ | ⟨o, -, -, rfl⟩
    · have hspendable : o.spendable = true := by simpa [spentIn, hclaim] using hspent
      rw [hfree o hold hspendable] at hclaim
      cases hclaim
    · cases hclaim
  refine wp_unreferenced trivial fun _ s₂ h₂ => ?_
  have hmaps : ∀ m ∈ s₂.outputTagMaps, ∀ o ∈ s₂.outputs, o.outputId = m.outputId →
      o.transactionId ≠ id := by
    intro m hm o ho hkey hid
    rw [h₂] at hm ho
    have hnot := Table.exists?_eq_false.mp (Table.mem_delete.mp hm).2 o ho
    simp [hid, hkey] at hnot
  refine wp_unreferenced hmaps fun _ s₃ h₃ => ?_
  have houtputs : s₃.outputs = s₁.outputs.delete (·.transactionId == id) := by
    rw [h₃, show s₁.outputs = s₂.outputs by rw [h₂]; rfl]
    rfl
  refine wp_unreferenced trivial fun _ s₄ h₄ => ?_
  refine wp_unreferenced trivial fun _ s₅ h₅ => ?_
  have hlabels : ∀ m ∈ s₅.txLabelMaps, m.transactionId ≠ id := by
    intro m hm
    rw [h₅] at hm
    simp only [PurgeStmt.apply, h₄] at hm
    exact beq_eq_false_iff_ne.mp (Table.mem_delete.mp hm).2
  have hcommissions : ∀ c ∈ s₅.commissions, c.transactionId ≠ id := by
    intro c hc
    rw [h₅] at hc
    exact beq_eq_false_iff_ne.mp (Table.mem_delete.mp hc).2
  have hlast : s₅.outputs = s₃.outputs := by
    rw [h₅]
    simp only [PurgeStmt.apply, h₄]
  have hrefers : ∀ o ∈ s₅.outputs, o.transactionId ≠ id ∧ o.spentBy ≠ some id := by
    intro o ho
    rw [hlast, houtputs] at ho
    obtain ⟨hold, hid⟩ := Table.mem_delete.mp ho
    exact ⟨beq_eq_false_iff_ne.mp hid, hclaims o hold⟩
  refine wp_unreferenced ⟨hrefers, hlabels, hcommissions⟩ fun _ s₆ h₆ => ?_
  have hfive : s₅.transactions = s.transactions ∧ s₅.provenTxs = s.provenTxs := by
    simp only [h₅, h₄, h₃, h₂, h₁, PurgeStmt.apply, and_self]
  refine ⟨?_, ?_, fun o' => ?_⟩
  · rw [h₆]
    simp only [PurgeStmt.apply, hfive.1]
    refine Table.delete_congr fun t _ => ?_
    rw [List.contains_cons, List.contains_nil, Bool.or_false]
  · rw [h₆]
    exact hfive.2
  · have hsix : s₆.outputs = (s.outputs.update (spentIn id) Output.clearSpentBy key_clearSpentBy).delete
        (·.transactionId == id) := by
      rw [h₆]
      simp only [PurgeStmt.apply, hlast, houtputs, h₁]
    rw [hsix]
    exact mem_purgedOutputs

/-- One transaction after the other goes; nothing is refused. -/
theorem wp_purgeTransactions (hfree : SpendableFree d) {gone ids : List Nat} (n : Nat)
    (hs : Purged gone d s.toTables) :
    wp PurgeStmt.exec (ids.foldlM (fun deleted id => do
        let rows ← purgeTransaction id
        pure (deleted + rows)) n)
      (fun _ s' => Purged (gone ++ ids) d s'.toTables) (fun _ => False) s := by
  induction ids generalizing gone n s with
  | nil => simpa using hs
  | cons id ids ih =>
    rw [List.foldlM_cons, wp_bind, wp_bind]
    refine wp_mono (wp_purgeTransaction (hfree.purged hs) id) (fun rows s' hs' => ?_) fun _ h => h
    rw [wp_pure, List.append_cons]
    exact ih _ (hs.snoc hs')

/-! ## The proof chains -/

/-- The BEEF of a txid cannot be built or cannot be read. -/
def Unreadable (sdk : Sdk) (bumps : BumpSdk) (d : Tables) (txid : String) : Prop :=
  (∃ e, getValidBeefForTxid sdk bumps .no [] d txid = .error e) ∨
    ∃ bytes e, getValidBeefForTxid sdk bumps .no [] d txid = .ok (some bytes) ∧
      sdk.parseBeef bytes = .error e

/-- The BEEF of a txid, if there is one, has its transactions among the txids. -/
def BeefCovered (sdk : Sdk) (bumps : BumpSdk) (d : Tables) (txids : List String) (txid : String) : Prop :=
  getValidBeefForTxid sdk bumps .no [] d txid = .ok none ∨
    ∃ bytes beef, getValidBeefForTxid sdk bumps .no [] d txid = .ok (some bytes) ∧
      sdk.parseBeef bytes = .ok beef ∧ beef.txids ⊆ txids

/-- Some spendable output has a BEEF that cannot be built or read. -/
def SomeUnreadable (sdk : Sdk) (bumps : BumpSdk) (d : Tables) : Prop :=
  ∃ o ∈ spendableOutputs d, ∃ txid, o.txid = some txid ∧ Unreadable sdk bumps d txid

theorem BeefCovered.mono {txids txids' : List String} {txid : String} (h : BeefCovered sdk bumps d txids txid)
    (hsub : txids ⊆ txids') : BeefCovered sdk bumps d txids' txid :=
  h.imp_right fun ⟨bytes, beef, hbytes, hbeef, hin⟩ =>
    ⟨bytes, beef, hbytes, hbeef, List.Subset.trans hin hsub⟩

theorem wp_outputProofTxids (o : Output) :
    wp PurgeStmt.exec (outputProofTxids sdk bumps o)
      (fun txids s' => s' = s ∧ ∀ txid, o.txid = some txid → BeefCovered sdk bumps s.toTables txids txid)
      (fun s' => s' = s ∧ ∃ txid, o.txid = some txid ∧ Unreadable sdk bumps s.toTables txid) s := by
  unfold outputProofTxids
  split
  · rename_i hnone
    exact ⟨rfl, fun txid htxid => by rw [hnone] at htxid; cases htxid⟩
  · rename_i txid htxid
    rw [wp_bind, wp_ask]
    split
    · rename_i e herror
      exact ⟨rfl, txid, htxid, .inl ⟨e, herror⟩⟩
    · rename_i hempty
      refine ⟨rfl, fun txid' htxid' => ?_⟩
      obtain rfl : txid = txid' := Option.some.inj (htxid.symm.trans htxid')
      exact .inl hempty
    · rename_i bytes hbytes
      split
      · rename_i e herror
        exact ⟨rfl, txid, htxid, .inr ⟨bytes, e, hbytes, herror⟩⟩
      · rename_i beef hbeef
        refine ⟨rfl, fun txid' htxid' => ?_⟩
        obtain rfl : txid = txid' := Option.some.inj (htxid.symm.trans htxid')
        exact .inr ⟨bytes, beef, hbytes, hbeef, List.Subset.refl _⟩

/-- The loop covers one output after the other. -/
theorem wp_proofTxids_loop (outputs : List Output) (txids : List String) :
    wp PurgeStmt.exec (outputs.foldlM (fun txids output => do
        let more ← outputProofTxids sdk bumps output
        pure (txids ++ more)) txids)
      (fun txids' s' => s' = s ∧ txids ⊆ txids' ∧
        ∀ o ∈ outputs, ∀ txid, o.txid = some txid → BeefCovered sdk bumps s.toTables txids' txid)
      (fun s' => s' = s ∧
        ∃ o ∈ outputs, ∃ txid, o.txid = some txid ∧ Unreadable sdk bumps s.toTables txid) s := by
  induction outputs generalizing txids with
  | nil =>
    rw [List.foldlM_nil, wp_pure]
    exact ⟨rfl, List.Subset.refl _, fun o ho => absurd ho List.not_mem_nil⟩
  | cons o outputs ih =>
    rw [List.foldlM_cons, wp_bind, wp_bind]
    refine wp_mono (wp_outputProofTxids o) ?_ ?_
    · rintro more _ ⟨rfl, hcovered⟩
      rw [wp_pure]
      refine wp_mono (ih (txids ++ more)) ?_ ?_
      · rintro txids' _ ⟨rfl, hsub, hrest⟩
        have hmore : more ⊆ txids' := List.Subset.trans (List.subset_append_right txids more) hsub
        exact ⟨rfl, List.Subset.trans (List.subset_append_left txids more) hsub,
          List.forall_mem_cons.mpr ⟨fun txid htxid => (hcovered txid htxid).mono hmore, hrest⟩⟩
      · rintro _ ⟨rfl, o', ho', hbad⟩
        exact ⟨rfl, o', List.mem_cons_of_mem _ ho', hbad⟩
    · rintro _ ⟨rfl, hbad⟩
      exact ⟨rfl, o, List.mem_cons_self, hbad⟩

theorem wp_collectProofTxids :
    wp PurgeStmt.exec (collectProofTxids sdk bumps)
      (fun txids s' => s' = s ∧ ∀ o ∈ spendableOutputs s.toTables, ∀ txid, o.txid = some txid →
        BeefCovered sdk bumps s.toTables txids txid)
      (fun s' => s' = s ∧ SomeUnreadable sdk bumps s.toTables) s := by
  rw [collectProofTxids, wp_bind, wp_ask]
  exact wp_mono (wp_proofTxids_loop _ []) (fun _ _ h => ⟨h.1, h.2.2⟩) fun _ h => h

/-! ## What stays -/

/-- What a purge keeps, and what it takes away. -/
structure PurgeKeeps (sdk : Sdk) (bumps : BumpSdk) (before : Int) (d d' : Tables) : Prop where
  /-- A spendable output stays, and so does its transaction. -/
  spendable : ∀ o ∈ d.outputs, o.spendable = true → o ∈ d'.outputs ∧
    ∀ t ∈ d.transactions, t.transactionId = o.transactionId → t ∈ d'.transactions
  /-- The other outputs that stay may lose a claim, of a transaction that is gone. -/
  outputs : ∀ o' ∈ d'.outputs, o' ∈ d.outputs ∨ ∃ o ∈ d.outputs, o.spendable = false ∧
    o' = o.clearSpentBy ∧ ∃ id, o.spentBy = some id ∧ ∀ t ∈ d'.transactions, t.transactionId ≠ id
  transactions : ∀ t ∈ d'.transactions, t ∈ d.transactions
  /-- Only old completed transactions without spendable outputs go. -/
  gone : ∀ t ∈ d.transactions, t ∈ d'.transactions ∨ t.status = .completed ∧ t.updatedAt < before ∧
    ∀ o ∈ d.outputs, o.transactionId = t.transactionId → o.spendable = false
  /-- The BEEFs of the spendable outputs of sending, unproven, completed and nosend transactions. -/
  beefs : ∀ o ∈ spendableOutputs d, ∀ txid, o.txid = some txid →
    getValidBeefForTxid sdk bumps .no [] d' txid = getValidBeefForTxid sdk bumps .no [] d txid

theorem PurgeKeeps.refl (sdk : Sdk) (bumps : BumpSdk) (before : Int) (d : Tables) :
    PurgeKeeps sdk bumps before d d where
  spendable _ ho _ := ⟨ho, fun _ ht _ => ht⟩
  outputs _ ho' := .inl ho'
  transactions _ ht := ht
  gone _ ht := .inl ht
  beefs _ _ _ _ := rfl

theorem getValidBeefForTxid_ofReqs (reqs : Table ProvenTxReq) (txid : String) :
    getValidBeefForTxid sdk bumps .no [] { d with provenTxReqs := reqs } txid =
      getValidBeefForTxid sdk bumps .no [] d txid :=
  have hsame : SameSources d { d with provenTxReqs := reqs } := .of_transactions rfl rfl
  getValidBeefForTxid_congr hsame txid

theorem SomeUnreadable.ofReqs {reqs : Table ProvenTxReq}
    (h : SomeUnreadable sdk bumps { d with provenTxReqs := reqs }) : SomeUnreadable sdk bumps d := by
  obtain ⟨o, ho, txid, htxid, hbad⟩ := h
  simp only [Unreadable, getValidBeefForTxid_ofReqs] at hbad
  exact ⟨o, ho, txid, htxid, hbad⟩

/-- The same for a store whose requests were others. -/
theorem PurgeKeeps.ofReqs {before : Int} {reqs : Table ProvenTxReq}
    (h : PurgeKeeps sdk bumps before { d with provenTxReqs := reqs } d') :
    PurgeKeeps sdk bumps before d d' where
  spendable := h.spendable
  outputs := h.outputs
  transactions := h.transactions
  gone := h.gone
  beefs o ho txid htxid := (h.beefs o ho txid htxid).trans (getValidBeefForTxid_ofReqs reqs txid)

theorem mem_unneeded {txids : List String} {before : Int} {id : Nat}
    (hid : id ∈ unneeded txids (purgeCandidates d before)) :
    ∃ t ∈ d.transactions, t.transactionId = id ∧ t.status = .completed ∧ t.updatedAt < before ∧
      (∀ o ∈ d.outputs, o.transactionId = id → o.spendable = false) ∧
      ∀ txid, t.txid = some txid → txid ∉ txids := by
  obtain ⟨t, ht, rfl⟩ := List.mem_map.mp hid
  obtain ⟨hcandidate, htxid⟩ := List.mem_filter.mp ht
  obtain ⟨hmem, hold⟩ := Table.mem_find.mp hcandidate
  simp only [Bool.and_eq_true, decide_eq_true_eq, beq_iff_eq, Bool.not_eq_true',
    Table.exists?_eq_false] at hold
  obtain ⟨⟨hbefore, hstatus⟩, hnone⟩ := hold
  refine ⟨t, hmem, rfl, hstatus, hbefore, fun o ho hkey => ?_, fun txid hsome hin => ?_⟩
  · simpa [hkey] using hnone o ho
  · rw [hsome] at htxid
    simp [hin] at htxid

/-- A kept txid is of no purged transaction. -/
theorem Purged.keepsTxids {txids : List String} {before : Int}
    (h : Purged (unneeded txids (purgeCandidates d before)) d d') :
    KeepsTxids (· ∈ txids) d d' where
  provenTxs := h.provenTxs
  rows := by
    rw [h.transactions]
    exact List.filter_sublist
  kept txid hin := by
    rw [h.transactions]
    refine Table.first_delete fun t ht htxid => ?_
    rw [Bool.eq_false_iff, ne_eq, List.contains_iff_mem]
    intro hid
    obtain ⟨t', ht', hkey, -, -, -, hnot⟩ := mem_unneeded hid
    obtain rfl : t' = t := Table.eq_of_key_eq ht' ht hkey
    exact hnot txid (by simpa using htxid) hin

/-- The BEEF of a covered txid stays what it is. -/
theorem Purged.beef_eq (hunites : UnitesTxids sdk bumps) (hnames : NamesRawTxs sdk d) {txids : List String}
    {before : Int} (h : Purged (unneeded txids (purgeCandidates d before)) d d') {txid : String}
    (hcovered : BeefCovered sdk bumps d txids txid) :
    getValidBeefForTxid sdk bumps .no [] d' txid = getValidBeefForTxid sdk bumps .no [] d txid := by
  have hwalk : ∃ w, collectTxRecursive sdk d .no [] (d.transactions.rows.length + 1) txid {} = .ok w ∧
      w.Within (· ∈ txids) := by
    rcases hcovered with hnone | ⟨bytes, beef, hbytes, hbeef, hin⟩
    · obtain ⟨w, hwalk, hbuild⟩ := bind_ok_iff.mp hnone
      refine ⟨w, hwalk, fun c hc => ?_⟩
      unfold buildBeefFromCollected at hbuild
      split at hbuild
      · rename_i hempty
        rw [List.isEmpty_iff.mp hempty] at hc
        cases hc
      · obtain ⟨_, -, hbuild⟩ := bind_ok_iff.mp hbuild
        obtain ⟨_, -, hbuild⟩ := bind_ok_iff.mp hbuild
        cases hbuild
    · obtain ⟨w, hwalk, hbuild⟩ := bind_ok_iff.mp hbytes
      have hnamed := collectTxRecursive_named hnames hwalk fun c hc => absurd hc List.not_mem_nil
      exact ⟨w, hwalk, fun c hc hproof =>
        hin (buildBeefFromCollected_txids hunites hbuild hbeef hc (hnamed c hc) hproof)⟩
  obtain ⟨w, hwalk, hwithin⟩ := hwalk
  exact getValidBeefForTxid_kept h.keepsTxids hnames.hasRawTxs hwalk hwithin

theorem Purged.keeps (hunites : UnitesTxids sdk bumps) (hnames : NamesRawTxs sdk d) {txids : List String}
    {before : Int} (h : Purged (unneeded txids (purgeCandidates d before)) d d')
    (hcovered : ∀ o ∈ spendableOutputs d, ∀ txid, o.txid = some txid → BeefCovered sdk bumps d txids txid)
    (hfree : SpendableFree d) : PurgeKeeps sdk bumps before d d' where
  spendable o ho hspendable := by
    have hnot : (unneeded txids (purgeCandidates d before)).contains o.transactionId = false := by
      rw [Bool.eq_false_iff, ne_eq, List.contains_iff_mem]
      intro hid
      obtain ⟨_, -, -, -, -, hnone, -⟩ := mem_unneeded hid
      rw [hnone o ho rfl] at hspendable
      cases hspendable
    refine ⟨(h.outputs o).mpr ⟨o, ho, hnot, ?_⟩, fun t ht hkey => ?_⟩
    · refine (Output.freed_eq_self fun id hclaim => ?_).symm
      rw [hfree o ho hspendable] at hclaim
      cases hclaim
    · rw [h.transactions]
      exact Table.mem_delete.mpr ⟨ht, by rw [hkey]; exact hnot⟩
  outputs o' ho' := by
    obtain ⟨o, ho, -, rfl⟩ := (h.outputs o').mp ho'
    by_cases hclaim : ∃ id, o.spentBy = some id ∧ o.spendable = false ∧
        id ∈ unneeded txids (purgeCandidates d before)
    · obtain ⟨id, hspent, hspendable, hid⟩ := hclaim
      refine .inr ⟨o, ho, hspendable, ?_, id, hspent, fun t ht hkey => ?_⟩
      · simp [Output.freed, Output.clearSpentBy, hspendable, hspent, hid, Option.filter]
      · rw [h.transactions, Table.mem_delete, hkey] at ht
        simp [hid] at ht
    · rw [Output.freed_eq_self fun id hspent hspendable hid => hclaim ⟨id, hspent, hspendable, hid⟩]
      exact .inl ho
  transactions t ht := by
    rw [h.transactions] at ht
    exact (Table.mem_delete.mp ht).1
  gone t ht := by
    rw [h.transactions, Table.mem_delete]
    cases hid : (unneeded txids (purgeCandidates d before)).contains t.transactionId with
    | false => exact .inl ⟨ht, rfl⟩
    | true =>
      obtain ⟨t', ht', hkey, hstatus, hbefore, hnone, -⟩ := mem_unneeded (List.contains_iff_mem.mp hid)
      obtain rfl : t' = t := Table.eq_of_key_eq ht' ht hkey
      exact .inr ⟨hstatus, hbefore, hnone⟩
  beefs o ho txid htxid := h.beef_eq hunites hnames (hcovered o ho txid htxid)

theorem wp_purgeSpent (hunites : UnitesTxids sdk bumps) (hnames : NamesRawTxs sdk s.toTables)
    (hfree : SpendableFree s.toTables) (age : Nat) :
    wp PurgeStmt.exec (purgeSpent sdk bumps age)
      (fun _ s' => PurgeKeeps sdk bumps (cutoff s.toTables age) s.toTables s'.toTables)
      (fun s' => s' = s ∧ SomeUnreadable sdk bumps s.toTables) s := by
  simp only [purgeSpent, wp_bind, wp_ask]
  refine wp_mono wp_collectProofTxids ?_ fun _ h => h
  rintro txids _ ⟨rfl, hcovered⟩
  rw [wp_atomically]
  refine wp_mono (wp_purgeTransactions hfree 0 (.nil _)) (fun _ s' hs' => ?_) fun _ h => h.elim
  exact Purged.keeps hunites hnames hs' hcovered hfree

/-- Only the requests of the two stores differ. -/
def OnlyReqs (s s' : Store) : Prop :=
  s'.toTables = { s.toTables with provenTxReqs := s'.provenTxReqs }

theorem wp_purgeReqs (status : ProvenTxReqStatus) (age : Nat) :
    wp PurgeStmt.exec (purgeReqs status age)
      (fun _ => OnlyReqs s) (fun _ => False) s := by
  rw [purgeReqs, wp_bind, wp_ask]
  refine wp_unreferenced trivial fun _ s' hs' => ?_
  rw [OnlyReqs, hs']
  rfl

theorem wp_purgePart {wanted : Bool} {what : String} {part : PurgeProg Nat} {I : Store → Prop}
    {E : Store → Prop} (hpart : wanted = true → wp PurgeStmt.exec part (fun _ => I) E s)
    (hskip : wanted = false → I s) : wp PurgeStmt.exec (purgePart wanted what part) (fun _ => I) E s := by
  unfold purgePart
  split
  · rename_i hwanted
    rw [wp_bind]
    exact wp_mono (hpart hwanted) (fun _ _ h => h) fun _ h => h
  · rename_i hwanted
    exact hskip (Bool.eq_false_iff.mpr hwanted)

/-- Whatever is purged: no spendable output is lost, neither is its transaction, and the BEEFs of the
spendable outputs of sending, unproven, completed and nosend transactions are what they were. Only old
completed transactions without spendable outputs go, and the outputs that stay are as they were but for
the claims of those. A purge fails only where one of these BEEFs cannot be built or read. -/
theorem purgeData_keeps (hunites : UnitesTxids sdk bumps) (hnames : NamesRawTxs sdk s.toTables)
    (hfree : SpendableFree s.toTables) (params : PurgeParams) :
    PurgeKeeps sdk bumps (cutoff s.toTables params.purgeSpentAge) s.toTables
        ((purgeData sdk bumps params).run PurgeStmt.exec s).2.toTables ∧
      (((purgeData sdk bumps params).run PurgeStmt.exec s).1.isOk = true ∨
        params.purgeSpent = true ∧ SomeUnreadable sdk bumps s.toTables) := by
  have honly : ∀ s', OnlyReqs s s' →
      PurgeKeeps sdk bumps (cutoff s.toTables params.purgeSpentAge) s.toTables s'.toTables := fun s' hs' => by
    rw [hs']
    exact (PurgeKeeps.refl _ _ _ _).ofReqs
  have hpurge : wp PurgeStmt.exec (purgeData sdk bumps params)
      (fun _ s' => PurgeKeeps sdk bumps (cutoff s.toTables params.purgeSpentAge) s.toTables s'.toTables)
      (fun s' => OnlyReqs s s' ∧ params.purgeSpent = true ∧ SomeUnreadable sdk bumps s.toTables) s := by
    simp only [purgeData, wp_bind]
    refine wp_mono (Q := fun _ => OnlyReqs s) (E := fun _ => False) ?_ (fun _ s₁ h₁ => ?_) fun _ h => h.elim
    · exact wp_purgePart (fun _ => wp_purgeReqs _ _) fun _ => rfl
    refine wp_mono (Q := fun _ => OnlyReqs s) (E := fun _ => False) ?_ (fun _ s₂ h₂ => ?_) fun _ h => h.elim
    · refine wp_purgePart (fun _ => wp_mono (wp_purgeReqs _ _) (fun _ s₂ h₂ => ?_) fun _ h => h) fun _ => h₁
      rw [OnlyReqs, h₂, h₁]
    have hnames₂ : NamesRawTxs sdk s₂.toTables := by rw [h₂]; exact hnames
    have hfree₂ : SpendableFree s₂.toTables := by rw [h₂]; exact hfree
    refine wp_purgePart (fun hwanted => ?_) fun _ => honly s₂ h₂
    refine wp_mono (wp_purgeSpent hunites hnames₂ hfree₂ _) (fun _ s₃ h₃ => ?_) ?_
    · rw [h₂] at h₃
      exact h₃.ofReqs
    · rintro _ ⟨rfl, hbad⟩
      rw [h₂] at hbad
      exact ⟨h₂, hwanted, hbad.ofReqs⟩
  unfold wp at hpurge
  rcases hrun : (purgeData sdk bumps params).run PurgeStmt.exec s with ⟨_ | _, s'⟩
  · rw [hrun] at hpurge
    exact ⟨honly s' hpurge.1, .inr hpurge.2⟩
  · rw [hrun] at hpurge
    exact ⟨hpurge, .inl rfl⟩

end Purge

/-! ## A payment that depends on an old transaction -/

namespace Payer

/-- The SDK on the one BEEF that is built here, the payment with the proven funding. -/
def sdk : Sdk :=
  { Sample.sdk with
    beefBytes := fun b =>
      if b.txids = [Sample.fundingTxid, Sample.paymentTxid] then .ok Sample.postedBeef else Sample.unknown
    parseBeef := fun bytes =>
      if bytes = Sample.postedBeef then .ok { Sample.pendingBeef with atomicTxid := none }
      else Sample.unknown
    mergeBeef := fun _ _ => Sample.unknown }

def bumps : BumpSdk where
  parseBump bytes := if bytes = Sample.fundingBumpRaw then .ok Sample.fundingBump else Sample.unknown
  mergeBump b bump := .ok ({ b with bumps := b.bumps ++ [bump] }, b.bumps.length)
  mergeProvenTx b raw i := do
    let tx ← Sample.parseTx raw
    let txid ← Sample.sdk.txidOf tx
    .ok { b with txs := b.txs ++ [{ txid, tx := some tx, bumpIndex := some i, inputTxids := [] }] }

theorem txids_append (b : Beef) (more : List BeefTx) :
    b.txids ⊆ ({ b with txs := b.txs ++ more } : Beef).txids := by
  rw [Beef.txids, Beef.txids, List.map_append]
  exact List.subset_append_left _ _

theorem unitesTxids : UnitesTxids sdk bumps where
  mergeBump b bump b' i h := by
    cases h
    exact List.Subset.refl _
  mergeProvenTx b raw i b' h := by
    obtain ⟨tx, -, h⟩ := bind_ok_iff.mp h
    obtain ⟨txid, -, h⟩ := bind_ok_iff.mp h
    cases h
    exact txids_append b _
  mergeRawTx b raw b' h := by
    obtain ⟨tx, htx, h⟩ := bind_ok_iff.mp h
    cases h
    refine ⟨txids_append b _, fun txid hid => ?_⟩
    obtain ⟨tx', htx', hid⟩ := bind_ok_iff.mp hid
    obtain rfl : tx = tx' := Except.ok.inj (htx.symm.trans htx')
    rw [Beef.txids, List.map_append]
    refine List.mem_append_right _ ?_
    simp only [sdk, Sample.sdk] at hid
    split_ifs at hid with hfunding hpayment
    · cases hid
      simp [hfunding, Sample.fundingBeefTx]
    · cases hid
      simp [hfunding, Sample.paymentBeefTx]
    · cases hid
  mergeBeef b other b' h := by cases h
  sortTxs b txid h := by
    obtain ⟨e, he, rfl⟩ := List.mem_map.mp h
    refine List.mem_map_of_mem (List.mem_append.mpr ?_)
    cases hproof : e.hasProof with
    | true => exact .inl (List.mem_filter.mpr ⟨he, hproof⟩)
    | false => exact .inr (List.mem_filter.mpr ⟨he, by rw [hproof]; rfl⟩)
  parseBeef b bytes b' hbytes hparse := by
    simp only [sdk] at hbytes hparse
    split_ifs at hbytes with htxids
    · cases hbytes
      rw [if_pos rfl] at hparse
      cases hparse
      rw [htxids]
      exact List.Subset.refl _
    · cases hbytes

/-- The payment is signed and sent, and weeks go by. -/
def signed : Store := Sample.after [Sample.fund, Sample.pay, Sample.sign false]

def sent : Store :=
  ((wallet Sample.sdk).next (Sample.post signed "success") signed).tick 3000000000

end Payer

/-- The proven funding is old and spent, and stays for the BEEF of the payment's change. -/
theorem purgeData_keeps_funding :
    (purgeCandidates Payer.sent.toTables (cutoff Payer.sent.toTables 1209600000)).map (·.txid) =
        [some Sample.fundingTxid] ∧
      ∀ o ∈ spendableOutputs Payer.sent.toTables, ∀ txid, o.txid = some txid →
        getValidBeefForTxid Payer.sdk Payer.bumps .no []
            ((purgeData Payer.sdk Payer.bumps { purgeSpent := true }).run PurgeStmt.exec Payer.sent).2.toTables
            txid =
          getValidBeefForTxid Payer.sdk Payer.bumps .no [] Payer.sent.toTables txid := by
  have hsent : (∀ t ∈ Payer.sent.transactions, t.txid.all fun txid => t.rawTx.any fun raw =>
        (rawTxid Payer.sdk raw).toOption == some txid) ∧
      (∀ o ∈ Payer.sent.outputs, o.spendable = true → o.spentBy = none) ∧
      (purgeCandidates Payer.sent.toTables (cutoff Payer.sent.toTables 1209600000)).map (·.txid) =
        [some Sample.fundingTxid] := by decide +kernel
  obtain ⟨hall, hfree, hcandidates⟩ := hsent
  have hnames : NamesRawTxs Payer.sdk Payer.sent.toTables := by
    intro t ht txid htxid
    have hraw := hall t ht
    rw [htxid] at hraw
    obtain ⟨raw, hraw, hid⟩ := (Option.any_eq_true _ _).mp hraw
    exact ⟨raw, hraw, toOption_eq_some.mp (beq_iff_eq.mp hid)⟩
  have hkeeps := (purgeData_keeps Payer.unitesTxids hnames hfree { purgeSpent := true }).1
  exact ⟨hcandidates, hkeeps.beefs⟩

end WalletToolbox.Storage
