import Mathlib.Data.List.Dedup
import WalletToolbox.Laws.Provider
import WalletToolbox.Methods.CreateAction

/-! # What createAction does

A call adds one unsigned transaction with its outputs, which are not in use yet, and claims rows
that were free.
Every input it reports is a row that it claimed, or an outpoint for which the user has no row. -/

namespace WalletToolbox.Storage

open WalletToolbox.Lib
open WalletToolbox.Lib.Prog hiding pure exec

variable {sdk : Sdk} {s s₀ s' : Store} {E : Store → Prop} {userId id : Nat}

/-! ## The effect on the rows -/

/-- The row of a new action. -/
structure NewAction (userId id : Nat) (reference : String) (t : Transaction) : Prop where
  transactionId : t.transactionId = id
  userId : t.userId = userId
  status : t.status = .unsigned
  reference : t.reference = reference
  isOutgoing : t.isOutgoing = true
  txid : t.txid = none
  rawTx : t.rawTx = none
  provenTxId : t.provenTxId = none

/-- An output that a new action plans. -/
structure NewOutput (userId id : Nat) (o : Output) : Prop where
  userId : o.userId = userId
  transactionId : o.transactionId = id
  spendable : o.spendable = false
  spentBy : o.spentBy = none
  txid : o.txid = none

/-- A row that is free and belongs to the user. -/
structure Free (userId : Nat) (o : Output) : Prop where
  spendable : o.spendable = true
  spentBy : o.spentBy = none
  userId : o.userId = userId

/-- What becomes of the rows: a new action, its outputs, and claims on free rows. -/
structure Created (s s' : Store) (userId id : Nat) (reference : String) : Prop where
  fresh : ∀ t ∈ s.transactions, t.transactionId ≠ id
  transactions : ∀ t, t ∈ s'.transactions → t ∈ s.transactions ∨ NewAction userId id reference t
  keptTransactions : ∀ t ∈ s.transactions, t ∈ s'.transactions
  added : ∃ t ∈ s'.transactions, NewAction userId id reference t
  outputs : ∀ o ∈ s'.outputs, o ∈ s.outputs ∨
    (∃ o₀ ∈ s.outputs, Free userId o₀ ∧ ∃ now, o = claim now id o₀) ∨ NewOutput userId id o
  keptOutputs : ∀ o ∈ s.outputs, o ∈ s'.outputs ∨
    (Free userId o ∧ ∃ now, claim now id o ∈ s'.outputs)
  provenTxs : s'.provenTxs = s.provenTxs
  provenTxReqs : s'.provenTxReqs = s.provenTxReqs

/-- What a call issues once it has the id of its transaction. -/
def CreateStmt (userId id : Nat) : Stmt → Prop
  | .markInputsSpent _ t u => t = id ∧ u = userId
  | .insertOutput r => NewOutput userId id r
  | .updateTransaction t p => t = id ∧ p.status = none ∧ p.isOutgoing = some true ∧
      p.txid = none ∧ p.rawTx = none ∧ p.provenTxId = none
  | w => w.OffCore

theorem claimable_iff {ids : List Nat} {o : Output} :
    claimable ids userId o = true ↔ o.outputId ∈ ids ∧ Free userId o := by
  simp only [claimable, Bool.and_eq_true, List.contains_iff_mem, Option.isNone_iff_eq_none,
    beq_iff_eq]
  exact ⟨fun ⟨⟨⟨h, h₁⟩, h₂⟩, h₃⟩ => ⟨h, h₁, h₂, h₃⟩, fun ⟨h, h₁, h₂, h₃⟩ => ⟨⟨⟨h, h₁⟩, h₂⟩, h₃⟩⟩

/-- A free row is one that the call found: its own rows are not in use. -/
theorem Created.free_mem {reference : String} (h : Created s₀ s userId id reference) {o : Output} (ho : o ∈ s.outputs)
    (hfree : Free userId o) : o ∈ s₀.outputs := by
  rcases h.outputs o ho with hold | ⟨o₀, -, -, now, rfl⟩ | hnew
  · exact hold
  · exact absurd hfree.spendable (by simp [claim])
  · exact absurd hfree.spendable (by rw [hnew.spendable]; decide)

/-- Every statement of a call keeps the description of its effect. -/
theorem Created.step {w : Stmt} {reference : String} {n : Nat}
    (h : Created s₀ s userId id reference) (hexec : w.exec s = .ok (n, s'))
    (hw : CreateStmt userId id w) : Created s₀ s' userId id reference := by
  have hs' := (exec_eq hexec).2
  cases w with
  | markInputsSpent ids t u =>
    obtain ⟨rfl, rfl⟩ := hw
    have htx : s'.transactions = s.transactions := exec_transactions hexec (by rintro ⟨⟩)
    refine { h with
      transactions := by rw [htx]; exact h.transactions
      keptTransactions := by rw [htx]; exact h.keptTransactions
      added := by rw [htx]; exact h.added
      outputs := fun o ho => ?_
      keptOutputs := fun o ho => ?_
      provenTxs := (exec_provenTxs hexec (by rintro ⟨⟩)).trans h.provenTxs
      provenTxReqs := (exec_provenTxReqs hexec (by rintro ⟨⟩)).trans h.provenTxReqs }
    · rw [hs', mem_markInputsSpent] at ho
      obtain ⟨o₁, h₁, rfl⟩ := ho
      split
      · rename_i hsel
        have hfree₁ := (claimable_iff.mp hsel).2
        exact .inr (.inl ⟨o₁, h.free_mem h₁ hfree₁, hfree₁, _, rfl⟩)
      · exact h.outputs o₁ h₁
    · rcases h.keptOutputs o ho with hkept | ⟨hf, now, hkept⟩
      · cases hsel : claimable ids u o with
        | true =>
          refine .inr ⟨(claimable_iff.mp hsel).2, s.now, ?_⟩
          rw [hs', mem_markInputsSpent]
          exact ⟨o, hkept, by rw [if_pos hsel]⟩
        | false =>
          refine .inl ?_
          rw [hs', mem_markInputsSpent]
          exact ⟨o, hkept, by rw [if_neg (by simp [hsel])]⟩
      · refine .inr ⟨hf, now, ?_⟩
        rw [hs', mem_markInputsSpent]
        exact ⟨_, hkept, by rw [if_neg (by simp [claimable, claim])]⟩
  | insertOutput r =>
    have htx : s'.transactions = s.transactions := exec_transactions hexec (by rintro ⟨⟩)
    refine { h with
      transactions := by rw [htx]; exact h.transactions
      keptTransactions := by rw [htx]; exact h.keptTransactions
      added := by rw [htx]; exact h.added
      outputs := fun o ho => ?_
      keptOutputs := fun o ho => ?_
      provenTxs := (exec_provenTxs hexec (by rintro ⟨⟩)).trans h.provenTxs
      provenTxReqs := (exec_provenTxReqs hexec (by rintro ⟨⟩)).trans h.provenTxReqs }
    · rw [hs', mem_insertOutput] at ho
      rcases ho with ho | rfl
      · exact h.outputs o ho
      · have hr : NewOutput userId id r := hw
        exact .inr (.inr ⟨hr.userId, hr.transactionId, hr.spendable, hr.spentBy, hr.txid⟩)
    · have hgrow : ∀ o ∈ s.outputs, o ∈ s'.outputs := fun o ho => by
        rw [hs', mem_insertOutput]
        exact .inl ho
      rcases h.keptOutputs o ho with hkept | ⟨hf, now, hkept⟩
      · exact .inl (hgrow o hkept)
      · exact .inr ⟨hf, now, hgrow _ hkept⟩
  | updateTransaction t p =>
    obtain ⟨rfl, hstatus, houtgoing, htxid, hraw, hproven⟩ := hw
    have hout : s'.outputs = s.outputs := exec_outputs hexec (by rintro ⟨⟩)
    have hnew : ∀ t' : Transaction, NewAction userId t reference t' →
        NewAction userId t reference (p.apply s.now t') := by
      intro t' hn
      refine ⟨hn.transactionId, hn.userId, ?_, hn.reference, ?_, ?_, ?_, ?_⟩
      · simp only [TransactionPartial.apply, hstatus, Option.getD_none, hn.status]
      · simp only [TransactionPartial.apply, houtgoing, Option.getD_some]
      · simp only [TransactionPartial.apply, htxid, Option.none_or, hn.txid]
      · simp only [TransactionPartial.apply, hraw, Option.none_or, hn.rawTx]
      · simp only [TransactionPartial.apply, hproven, Option.none_or, hn.provenTxId]
    refine { h with
      transactions := fun t' ht' => ?_
      keptTransactions := fun t' ht' => ?_
      added := ?_
      outputs := by rw [hout]; exact h.outputs
      keptOutputs := by rw [hout]; exact h.keptOutputs
      provenTxs := (exec_provenTxs hexec (by rintro ⟨⟩)).trans h.provenTxs
      provenTxReqs := (exec_provenTxReqs hexec (by rintro ⟨⟩)).trans h.provenTxReqs }
    · rw [hs', mem_updateTransaction] at ht'
      obtain ⟨t₀, h₀, rfl⟩ := ht'
      rcases h.transactions t₀ h₀ with hold | hn
      · rw [if_neg (h.fresh t₀ hold)]
        exact .inl hold
      · rw [if_pos hn.transactionId]
        exact .inr (hnew t₀ hn)
    · rw [hs', mem_updateTransaction]
      exact ⟨t', h.keptTransactions t' ht', by rw [if_neg (h.fresh t' ht')]⟩
    · obtain ⟨t₀, h₀, hn⟩ := h.added
      refine ⟨p.apply s.now t₀, ?_, hnew t₀ hn⟩
      rw [hs', mem_updateTransaction]
      exact ⟨t₀, h₀, by rw [if_pos hn.transactionId]⟩
  | _ =>
    have hcore := Stmt.OffCore.sameCore hw hexec
    exact { h with
      transactions := by rw [hcore.transactions]; exact h.transactions
      keptTransactions := by rw [hcore.transactions]; exact h.keptTransactions
      added := by rw [hcore.transactions]; exact h.added
      outputs := by rw [hcore.outputs]; exact h.outputs
      keptOutputs := by rw [hcore.outputs]; exact h.keptOutputs
      provenTxs := hcore.provenTxs.trans h.provenTxs
      provenTxReqs := hcore.provenTxReqs.trans h.provenTxReqs }

/-! ## The statements of a call -/

section Parts

variable {K : Stmt → Prop} {basketId : Nat}

theorem emits_markInputsSpent {ids : List Nat} (h : ∀ ids, K (.markInputsSpent ids id userId)) :
    (markInputsSpent ids id userId).Emits K := by
  unfold markInputsSpent
  split
  · exact Emits.pure 0
  · exact Emits.exec (h ids)

theorem emits_addActionLabel {now : Nat} {label : String} (hlabel : ∀ l, K (.insertTxLabel l))
    (hmap : ∀ m, K (.insertTxLabelMap m)) : (addActionLabel now userId id label).Emits K :=
  Emits.bind (emits_findOrInsertTxLabel _ _ hlabel) fun _ => emits_exec' (hmap _)

theorem emits_planInput {beef : Option Beef} {planned : Planned}
    {item : StorageCreateActionInput × Nat} (h : ∀ ids, K (.markInputsSpent ids id userId)) :
    (planInput beef userId id planned item).Emits K := by
  unfold planInput
  refine Emits.bind (Emits.ask _) fun rows => ?_
  split
  · split
    · exact Emits.fail _
    · refine Emits.bind (emits_markInputsSpent h) fun updated => ?_
      split
      · exact Emits.fail _
      · exact Emits.pure _
  · exact Emits.bind (Emits.ofExcept _) fun _ => Emits.pure _

theorem emits_noSendChangeRows {args : StorageCreateActionArgs} :
    (noSendChangeRows args userId basketId).Emits K := by
  unfold noSendChangeRows
  split
  · refine Emits.foldlM fun rows op _ => ?_
    refine Emits.bind (Emits.ask _) fun found => Emits.bind (Emits.ofExcept _) fun row => ?_
    split
    · exact Emits.fail _
    · split
      · exact Emits.fail _
      · split
        · exact Emits.fail _
        · exact Emits.pure _
  · exact Emits.pure _

theorem emits_fundAction {args : StorageCreateActionArgs} {basket : OutputBasket}
    {fixedInputs : List FixedInput} (h : ∀ ids, K (.markInputsSpent ids id userId)) :
    (fundAction args basket userId id fixedInputs).Emits K := by
  refine Emits.bind (Emits.ask _) fun available => Emits.bind emits_noSendChangeRows fun noSend =>
    Emits.bind (Emits.ofExcept _) fun change => Emits.bind ?_ fun _ => Emits.pure _
  refine Emits.bind (emits_markInputsSpent h) fun updated => ?_
  split
  · exact Emits.fail _
  · exact Emits.pure _

theorem emits_callerBasketId {spec : StorageCreateActionOutput}
    (h : ∀ b, K (.insertOutputBasket b)) : (callerBasketId userId spec).Emits K := by
  unfold callerBasketId
  split
  · exact Emits.bind (emits_findOrInsertOutputBasket _ _ h) fun _ => Emits.pure _
  · exact Emits.pure none

theorem emits_storeOutputs {args : StorageCreateActionArgs} {entropy : Entropy} {now : Nat}
    {changeOutputs : List UInt64} (hbasket : ∀ b, K (.insertOutputBasket b))
    (houtput : ∀ o, K (.insertOutput o)) :
    (storeOutputs args entropy now userId id basketId changeOutputs).Emits K := by
  refine Emits.bind (Emits.foldlM fun pending spec _ =>
    Emits.bind (emits_callerBasketId hbasket) fun _ => Emits.pure _) fun caller => ?_
  exact Emits.bind (Emits.ofExcept _) fun pending =>
    Emits.bind (Emits.forM fun p _ => emits_exec' (houtput _)) fun _ => Emits.pure _

theorem emits_addChangeInputs {allocated : List Output}
    {records : List StorageCreateTransactionSdkInput} :
    (allocated.foldlM (addChangeInput sdk) records).Emits K :=
  Emits.foldlM fun _ _ _ => Emits.bind (Emits.ask _) fun _ => Emits.pure _

end Parts

/-! ## The inputs a call reports -/

/-- A row that was free when the call began and that it claimed. -/
def Claimed (s s' : Store) (userId id : Nat) (o : Output) : Prop :=
  o ∈ s.outputs ∧ Free userId o ∧ ∃ now, claim now id o ∈ s'.outputs

/-- The outpoint is that of a claimed row, or one for which the user has no row. -/
def Reported (s s' : Store) (userId id : Nat) (x : StorageOutPoint) : Prop :=
  (∃ o, Claimed s s' userId id o ∧ o.txid.getD "" = x.txid ∧ o.vout = x.vout) ∨
    ∀ o ∈ s.outputs, ¬ (o.userId = userId ∧ o.txid = some x.txid ∧ o.vout = x.vout)

/-- The outpoint that an input record names. -/
def StorageCreateTransactionSdkInput.outpoint (r : StorageCreateTransactionSdkInput) :
    StorageOutPoint :=
  ⟨r.sourceTxid, r.sourceVout⟩

/-- The effect so far, with the inputs reported so far. -/
structure Reports (s : Store) (userId id : Nat) (reference : String)
    (records : List StorageCreateTransactionSdkInput) (s' : Store) : Prop where
  created : Created s s' userId id reference
  reported : ∀ r ∈ records, Reported s s' userId id r.outpoint

theorem Claimed.step {w : Stmt} {n : Nat} {o : Output} (h : Claimed s₀ s userId id o)
    (hexec : w.exec s = .ok (n, s')) (hw : CreateStmt userId id w) : Claimed s₀ s' userId id o := by
  obtain ⟨hmem, hfree, now, hclaim⟩ := h
  refine ⟨hmem, hfree, now, ?_⟩
  have hs' := (exec_eq hexec).2
  cases w with
  | markInputsSpent ids t u =>
    rw [hs', mem_markInputsSpent]
    exact ⟨_, hclaim, by rw [if_neg (by simp [claimable, claim])]⟩
  | insertOutput r =>
    rw [hs', mem_insertOutput]
    exact .inl hclaim
  | updateTransaction t p =>
    rw [exec_outputs hexec nofun]
    exact hclaim
  | _ =>
    rw [(Stmt.OffCore.sameCore hw hexec).outputs]
    exact hclaim

section Call

variable {reference : String} {records : List StorageCreateTransactionSdkInput}

theorem Reports.step {w : Stmt} {n : Nat} (h : Reports s₀ userId id reference records s)
    (hexec : w.exec s = .ok (n, s')) (hw : CreateStmt userId id w) :
    Reports s₀ userId id reference records s' := by
  refine ⟨h.created.step hexec hw, fun r hr => ?_⟩
  rcases h.reported r hr with ⟨o, hclaimed, hout⟩ | hnone
  · exact .inl ⟨o, hclaimed.step hexec hw, hout⟩
  · exact .inr hnone

/-- A part of the call that reports no input. -/
theorem Reports.keeps {α : Type} {p : StorageProg α} (hp : p.Emits (CreateStmt userId id))
    (h : Reports s₀ userId id reference records s) :
    wp Stmt.exec p (fun _ => Reports s₀ userId id reference records) (fun _ => True) s :=
  wp_mono (hp.wp (fun _ _ _ _ hw h hexec => h.step hexec hw) h) (fun _ _ h => h) fun _ _ => trivial

theorem Reports.append {r : StorageCreateTransactionSdkInput}
    (h : Reports s₀ userId id reference records s) (hr : Reported s₀ s userId id r.outpoint) :
    Reports s₀ userId id reference (records ++ [r]) s := by
  refine ⟨h.created, fun r' hr' => ?_⟩
  rcases List.mem_append.mp hr' with hold | hnew
  · exact h.reported r' hold
  · rw [List.mem_singleton.mp hnew]
    exact hr

/-- The claim of a list of ids answers with the number of free rows among them, and claims them. -/
theorem wp_markInputsSpent {ids : List Nat} (h : Reports s₀ userId id reference records s) :
    wp Stmt.exec (markInputsSpent ids id userId)
      (fun n s' => n = (s.outputs.find (claimable ids userId)).length ∧
        Reports s₀ userId id reference records s' ∧
        ∀ o ∈ s.outputs, claimable ids userId o = true → Claimed s₀ s' userId id o)
      (fun _ => True) s := by
  unfold markInputsSpent
  split
  · rename_i hempty
    have hnil : ids = [] := List.isEmpty_iff.mp hempty
    subst hnil
    refine ⟨?_, h, fun o _ hsel => ?_⟩
    · rw [Table.find_eq_nil.mpr fun o _ => by simp [claimable]]
      rfl
    · simp [claimable] at hsel
  · refine wp_exec (fun n s' hexec => ⟨(exec_eq hexec).1, ?_, fun o ho hsel => ?_⟩) fun _ _ => trivial
    · exact h.step hexec ⟨rfl, rfl⟩
    · have hfree := (claimable_iff.mp hsel).2
      refine ⟨h.created.free_mem ho hfree, hfree, s.now, ?_⟩
      rw [(exec_eq hexec).2, mem_markInputsSpent]
      exact ⟨o, ho, by rw [if_pos hsel]⟩

/-- One input that the caller names. -/
theorem wp_planInput {beef : Option Beef} {planned : Planned} {item : StorageCreateActionInput × Nat}
    (h : Reports s₀ userId id reference planned.inputRecords s) :
    wp Stmt.exec (planInput beef userId id planned item)
      (fun planned' => Reports s₀ userId id reference planned'.inputRecords) (fun _ => True) s := by
  obtain ⟨input, vin⟩ := item
  unfold planInput
  simp only [wp_bind, wp_ask]
  cases hrow : (s.outputs.find fun o => o.userId == userId &&
      o.txid == some input.outpoint.txid && o.vout == input.outpoint.vout).head? with
  | some o =>
    obtain ⟨ho, hsel⟩ := Table.mem_find.mp (List.mem_of_mem_head? hrow)
    simp only [Bool.and_eq_true, beq_iff_eq] at hsel
    simp only
    split
    · trivial
    · rw [wp_bind]
      refine wp_mono (wp_markInputsSpent h) (fun n s' hn => ?_) fun _ _ => trivial
      obtain ⟨hn, hreports, hclaimed⟩ := hn
      split
      · trivial
      · rename_i hone
        -- one row was free, and it can only be the one that was read
        have hclaimable : claimable [o.outputId] userId o = true := by
          by_contra hnot
          refine hone ?_
          rw [hn, Table.find_eq_nil.mpr fun r hr => ?_]
          · decide
          · by_contra hr'
            have hr' := claimable_iff.mp (Bool.not_eq_false _ ▸ hr')
            have hkey : r.outputId = o.outputId := List.mem_singleton.mp hr'.1
            obtain rfl : r = o := Table.eq_of_key_eq hr ho hkey
            exact hnot (claimable_iff.mpr hr')
        refine hreports.append (.inl ⟨o, hclaimed o ho hclaimable, ?_, hsel.2⟩)
        rw [hsel.1.2]
        rfl
  | none =>
    simp only
    rw [wp_bind]
    refine wp_ofExcept (fun ext hext => ?_) fun _ _ => trivial
    obtain ⟨satoshis, script⟩ := ext
    rw [wp_pure]
    refine h.append (.inr fun o ho hmatch => ?_)
    have hnil := List.head?_eq_none_iff.mp hrow
    rcases h.created.keptOutputs o ho with hkept | ⟨-, now, hkept⟩
    all_goals
      have hno := Table.find_eq_nil.mp hnil _ hkept
      simp [hmatch.1, hmatch.2, claim, externalRecord,
        StorageCreateTransactionSdkInput.outpoint] at hno hmatch

/-- The rows of `noSendChange` are rows of the store; looking them up writes nothing. -/
theorem wp_noSendChangeRows {args : StorageCreateActionArgs} {basketId : Nat} :
    wp Stmt.exec (noSendChangeRows args userId basketId)
      (fun rows s' => s' = s ∧ ∀ o ∈ rows, o ∈ s.outputs) (fun _ => True) s := by
  unfold noSendChangeRows
  split
  · refine wp_foldlM (I := fun (rows : List Output) s' => s' = s ∧ ∀ o ∈ rows, o ∈ s.outputs)
      (fun op _ rows s₁ h₁ => ?_) ⟨rfl, by simp⟩
    obtain ⟨rfl, hrows⟩ := h₁
    unfold admitNoSendChange
    rw [wp_bind, wp_ask, wp_bind]
    refine wp_ofExcept (fun found hfound => ?_) fun _ _ => trivial
    have hfirst := verifyOneOrNone_first hfound
    cases found with
    | none => trivial
    | some o =>
      have ho := (Table.first_some hfirst.symm).1
      simp only
      split
      · trivial
      · split
        · trivial
        · refine ⟨rfl, fun o' ho' => ?_⟩
          rcases List.mem_append.mp ho' with hold | hnew
          · exact hrows o' hold
          · rw [List.mem_singleton.mp hnew]
            exact ho
  · exact ⟨rfl, by simp⟩

/-- When as many rows are free as ids were asked for, every id names a free row. -/
theorem claimable_of_length {ids : List Nat}
    (hlength : (s.outputs.find (claimable ids userId)).length = ids.length) {o : Output}
    (ho : o ∈ s.outputs) (hid : o.outputId ∈ ids) : claimable ids userId o = true := by
  have hkeys := s.outputs.nodup_key_find (claimable ids userId)
  have hsub : (s.outputs.find (claimable ids userId)).map key ⊆ ids := by
    intro k hk
    obtain ⟨r, hr, rfl⟩ := List.mem_map.mp hk
    exact (claimable_iff.mp (Table.mem_find.mp hr).2).1
  have hperm := (List.subperm_of_subset hkeys hsub).perm_of_length_le (by simp [hlength])
  obtain ⟨r, hr, hkey⟩ := List.mem_map.mp (hperm.mem_iff.mpr hid)
  obtain ⟨hmem, hsel⟩ := Table.mem_find.mp hr
  rwa [Table.eq_of_key_eq hmem ho hkey] at hsel

theorem mem_claimedIds {inputs : List AllocatedChangeInputRef} {a : AllocatedChangeInputRef}
    (h : a ∈ inputs) : a.outputId ∈ claimedIds inputs :=
  (List.perm_insertionSort _ _).mem_iff.mpr (List.mem_dedup.mpr (List.mem_map_of_mem h))

/-- Claiming the funding claims every row that it names. -/
theorem wp_claimFunding {ids : List Nat}
    (h : Reports s₀ userId id reference records s) :
    wp Stmt.exec (claimFunding ids id userId)
      (fun _ s' => Reports s₀ userId id reference records s' ∧
        ∀ o ∈ s.outputs, o.outputId ∈ ids → Claimed s₀ s' userId id o) (fun _ => True) s := by
  unfold claimFunding
  rw [wp_bind]
  refine wp_mono (wp_markInputsSpent h) (fun n s' hn => ?_) fun _ _ => trivial
  obtain ⟨rfl, hreports, hclaimed⟩ := hn
  split
  · trivial
  · rename_i hcount
    exact ⟨hreports, fun o ho hid =>
      hclaimed o ho (claimable_of_length (not_not.mp hcount) ho hid)⟩

/-- The rows that the change was allocated from are claimed. -/
theorem wp_fundAction {args : StorageCreateActionArgs} {basket : OutputBasket}
    {fixedInputs : List FixedInput} (h : Reports s₀ userId id reference records s) :
    wp Stmt.exec (fundAction args basket userId id fixedInputs)
      (fun funding s' => Reports s₀ userId id reference records s' ∧
        ∀ o ∈ funding.allocated, Claimed s₀ s' userId id o) (fun _ => True) s := by
  unfold fundAction
  rw [wp_bind, wp_ask, wp_bind]
  refine wp_mono wp_noSendChangeRows ?_ fun _ _ => trivial
  rintro noSend _ ⟨rfl, hnoSend⟩
  rw [wp_bind]
  refine wp_ofExcept (fun change _ => ?_) fun _ _ => trivial
  rw [wp_bind]
  refine wp_mono (wp_claimFunding h) (fun _ s' hs' => ?_) fun _ _ => trivial
  obtain ⟨hreports, hclaimed⟩ := hs'
  refine ⟨hreports, fun o ho => ?_⟩
  obtain ⟨a, ha, hfind⟩ := List.mem_filterMap.mp ho
  have hmem := List.mem_of_find?_eq_some hfind
  have hkey : o.outputId = a.outputId := by simpa using List.find?_some hfind
  refine hclaimed o ?_ (hkey ▸ mem_claimedIds ha)
  rcases List.mem_append.mp hmem with havail | hns
  · exact (Table.mem_find.mp ((List.perm_insertionSort _ _).mem_iff.mp havail)).1
  · exact hnoSend o hns

/-- The outputs that the caller asked for are new outputs of the action. -/
theorem wp_pendingCallers {specs : List StorageCreateActionOutput} {now : Nat}
    {I : Store → Prop}
    (hstep : ∀ w s n s', CreateStmt userId id w → I s → w.exec s = .ok (n, s') → I s') (h : I s) :
    wp Stmt.exec (specs.foldlM (pendingCaller now userId id) [])
      (fun pending s' => I s' ∧ ∀ p ∈ pending, NewOutput userId id p.row) (fun _ => True) s := by
  refine wp_foldlM (I := fun (pending : List PendingOutput) s' =>
      I s' ∧ ∀ p ∈ pending, NewOutput userId id p.row)
    (fun spec _ pending s₁ h₁ => ?_) ⟨h, by simp⟩
  obtain ⟨hinv, hpending⟩ := h₁
  unfold pendingCaller
  rw [wp_bind]
  have hbasket : (callerBasketId userId spec).Emits (CreateStmt userId id) :=
    emits_callerBasketId fun b => by simp [CreateStmt, Stmt.OffCore, Stmt.target]
  refine wp_mono (hbasket.wp hstep hinv) (fun basketId s₂ h₂ => ?_) fun _ _ => trivial
  refine ⟨h₂, fun p hp => ?_⟩
  rcases List.mem_append.mp hp with hold | hnew
  · exact hpending p hold
  · rw [List.mem_singleton.mp hnew]
    exact ⟨rfl, rfl, rfl, rfl, rfl⟩

/-- Assigning vouts keeps new outputs new. -/
theorem assignVouts_new {args : StorageCreateActionArgs} {entropy : Entropy}
    {pending assigned : List PendingOutput} (h : assignVouts args entropy pending = .ok assigned)
    (hnew : ∀ p ∈ pending, NewOutput userId id p.row) : ∀ p ∈ assigned, NewOutput userId id p.row := by
  unfold assignVouts at h
  split at h
  · cases hvouts : randomizedVouts entropy args.randomValsInRange pending.length with
    | error e =>
      rw [hvouts] at h
      cases h
    | ok vouts =>
      rw [hvouts] at h
      obtain rfl : List.zipWith PendingOutput.withVout pending vouts = assigned := Except.ok.inj h
      intro p hp
      obtain ⟨i, hi, rfl⟩ := List.mem_iff_getElem.mp hp
      have hold := hnew _ (List.getElem_mem (by simp at hi; exact hi.1 : i < pending.length))
      simp only [List.getElem_zipWith]
      exact ⟨hold.userId, hold.transactionId, hold.spendable, hold.spentBy, hold.txid⟩
  · obtain rfl := Except.ok.inj h
    exact hnew

/-- Storing the outputs keeps what was reported and claimed before. -/
theorem wp_storeOutputs {args : StorageCreateActionArgs} {entropy : Entropy} {now basketId : Nat}
    {changeOutputs : List UInt64} {I : Store → Prop}
    (hstep : ∀ w s n s', CreateStmt userId id w → I s → w.exec s = .ok (n, s') → I s') (h : I s) :
    wp Stmt.exec (storeOutputs args entropy now userId id basketId changeOutputs)
      (fun _ => I) (fun _ => True) s := by
  unfold storeOutputs
  rw [wp_bind]
  refine wp_mono (wp_pendingCallers hstep h) ?_ fun _ _ => trivial
  rintro caller s₁ ⟨hinv, hcaller⟩
  rw [wp_bind]
  refine wp_ofExcept (fun pending hpending => ?_) fun _ _ => trivial
  have hnew := assignVouts_new hpending fun p hp => by
    rcases List.mem_append.mp hp with hold | hchange
    · exact hcaller p hold
    · obtain ⟨⟨satoshis, i⟩, -, rfl⟩ := List.mem_map.mp hchange
      exact ⟨rfl, rfl, rfl, rfl, rfl⟩
  have hemits : (do
      forM pending fun p => exec' (.insertOutput p.row)
      pure pending : StorageProg (List PendingOutput)).Emits (CreateStmt userId id) :=
    Emits.bind (Emits.forM fun p hp => emits_exec' (hnew p hp)) fun _ => Emits.pure pending
  exact wp_mono (hemits.wp hstep hinv) (fun _ _ h => h) fun _ _ => trivial

/-- The records of the change inputs name claimed rows. -/
theorem wp_addChangeInputs {allocated : List Output}
    (h : Reports s₀ userId id reference records s)
    (hclaimed : ∀ o ∈ allocated, Claimed s₀ s userId id o) :
    wp Stmt.exec (allocated.foldlM (addChangeInput sdk) records)
      (fun inputs => Reports s₀ userId id reference inputs) (fun _ => True) s := by
  refine wp_mono (wp_foldlM (I := fun inputs s' => s' = s ∧
    Reports s₀ userId id reference inputs s) (fun o ho inputs s₁ h₁ => ?_) ⟨rfl, h⟩) ?_ fun _ h => h
  · obtain ⟨rfl, hreports⟩ := h₁
    unfold addChangeInput
    rw [wp_bind, wp_ask]
    exact ⟨rfl, hreports.append (.inl ⟨o, hclaimed o ho, rfl, rfl⟩)⟩
  · rintro inputs _ ⟨rfl, hreports⟩
    exact hreports

theorem wp_planAction {entropy : Entropy} {args : StorageCreateActionArgs} {basket : OutputBasket}
    {now : Nat} (h : Reports s₀ userId id reference [] s) :
    wp Stmt.exec (planAction sdk entropy userId args basket now id)
      (fun r s' => Reports s₀ userId id reference r.inputs s' ∧ r.reference = entropy.reference)
      (fun _ => True) s := by
  unfold planAction
  rw [wp_bind]
  have hlabels : (forM args.labels (addActionLabel now userId id)).Emits (CreateStmt userId id) :=
    Emits.forM fun label _ => emits_addActionLabel
      (fun l => by simp [CreateStmt, Stmt.OffCore, Stmt.target])
      fun m => by simp [CreateStmt, Stmt.OffCore, Stmt.target]
  refine wp_mono (h.keeps hlabels) (fun _ s₁ h₁ => ?_) fun _ _ => trivial
  rw [wp_bind]
  refine wp_ofExcept (fun beef _ => ?_) fun _ _ => trivial
  rw [wp_bind]
  refine wp_mono (wp_foldlM (I := fun (planned : Planned) =>
    Reports s₀ userId id reference planned.inputRecords)
      (fun item _ planned s₂ h₂ => wp_planInput h₂) h₁) (fun planned s₂ h₂ => ?_) fun _ _ => trivial
  rw [wp_bind]
  refine wp_mono (wp_fundAction h₂) ?_ fun _ _ => trivial
  rintro funding s₃ ⟨h₃, hclaimed⟩
  rw [wp_bind]
  refine wp_mono (wp_storeOutputs (I := fun s' =>
    Reports s₀ userId id reference planned.inputRecords s' ∧
      ∀ o ∈ funding.allocated, Claimed s₀ s' userId id o) (fun w s n s' hw h hexec =>
        ⟨h.1.step hexec hw, fun o ho => (h.2 o ho).step hexec hw⟩) ⟨h₃, hclaimed⟩) ?_
          fun _ _ => trivial
  rintro pending s₄ ⟨h₄, hclaimed₄⟩
  rw [wp_bind]
  refine wp_mono (wp_addChangeInputs h₄ hclaimed₄) (fun inputs s₅ h₅ => ?_) fun _ _ => trivial
  rw [wp_bind]
  refine wp_exec' (fun n s₆ hexec => ⟨h₅.step hexec ?_, rfl⟩) fun _ _ => trivial
  exact ⟨rfl, rfl, rfl, rfl, rfl, rfl⟩

/-- The first statement of a call inserts the row of the action. -/
theorem created_insertTransaction {args : StorageCreateActionArgs} {now n : Nat} {reference : String}
    {s₁ : Store}
    (hexec : (Stmt.insertTransaction (newTransaction now userId args reference)).exec s = .ok (n, s₁)) :
    Created s s₁ userId n reference := by
  obtain ⟨hn, hs₁⟩ := exec_eq hexec
  have hout : s₁.outputs = s.outputs := exec_outputs hexec nofun
  have hnew : NewAction userId n reference ((newTransaction now userId args reference).stored n) :=
    ⟨rfl, rfl, rfl, rfl, rfl, rfl, rfl, rfl⟩
  have hadded : (newTransaction now userId args reference).stored n ∈ s₁.transactions := by
    rw [hs₁, mem_insertTransaction, hn]
    exact .inr rfl
  exact
    { fresh := fun t ht => by
        rw [hn]
        exact Table.key_ne_fresh ht
      transactions := fun t ht => by
        rw [hs₁, mem_insertTransaction] at ht
        rcases ht with hold | rfl
        · exact .inl hold
        · rw [hn] at hnew
          exact .inr (hn ▸ hnew)
      keptTransactions := fun t ht => by
        rw [hs₁, mem_insertTransaction]
        exact .inl ht
      added := ⟨_, hadded, hnew⟩
      outputs := fun o ho => .inl (hout ▸ ho)
      keptOutputs := fun o ho => .inl (hout ▸ ho)
      provenTxs := exec_provenTxs hexec nofun
      provenTxReqs := exec_provenTxReqs hexec nofun }

/-- The database transaction of a call, from its first statement on. -/
theorem wp_doCreateAction {entropy : Entropy} {args : StorageCreateActionArgs}
    {basket : OutputBasket} {now : Nat} :
    wp Stmt.exec (doCreateAction sdk entropy userId args basket now)
      (fun r s' => r.reference = entropy.reference ∧
        ∃ id, Reports s userId id entropy.reference r.inputs s') (fun _ => True) s := by
  unfold doCreateAction
  rw [wp_bind]
  refine wp_exec (fun n s₁ hexec => ?_) fun _ _ => trivial
  refine wp_mono (wp_planAction ⟨created_insertTransaction hexec, by simp⟩) ?_ fun _ h => h
  rintro r s' ⟨hreports, href⟩
  exact ⟨href, n, hreports⟩

/-- Only the core tables matter for the effect of a call. -/
theorem Reports.of_sameCore (hcore : SameCore s₀ s)
    (h : Reports s userId id reference records s') : Reports s₀ userId id reference records s' := by
  have hout := hcore.outputs
  have htx := hcore.transactions
  refine ⟨?_, fun r hr => ?_⟩
  · obtain ⟨fresh, transactions, keptTransactions, added, outputs, keptOutputs, proofs, reqs⟩ :=
      h.created
    rw [htx] at fresh transactions keptTransactions
    rw [hout] at outputs keptOutputs
    exact ⟨fresh, transactions, keptTransactions, added, outputs, keptOutputs,
      proofs.trans hcore.provenTxs, reqs.trans hcore.provenTxReqs⟩
  · have hr := h.reported r hr
    unfold Reported Claimed at hr ⊢
    rwa [hout] at hr

end Call

/-- What a call does: it leaves the core tables alone, or it has the effect above. -/
theorem wp_createAction {entropy : Entropy} {auth : String} {args : StorageCreateActionArgs}
    {Q : StorageCreateActionResult → Store → Prop}
    (hok : ∀ userId id r s', r.reference = entropy.reference →
      Reports s userId id entropy.reference r.inputs s' → Q r s')
    (herr : ∀ s', SameCore s s' → E s') :
    wp Stmt.exec (createAction sdk entropy auth args) Q E s := by
  unfold createAction
  rw [wp_bind]
  have huser : (findOrInsertUser auth).Emits Stmt.OffCore :=
    emits_findOrInsertUser auth fun u => by simp [Stmt.OffCore, Stmt.target]
  refine wp_offCore huser (fun user s₁ hcore => ?_) herr
  obtain ⟨user, isNew⟩ := user
  show wp Stmt.exec (storageCreateAction sdk entropy user.userId args) Q E s₁
  unfold storageCreateAction
  rw [wp_bind, wp_utcNow, wp_bind, wp_ask, wp_bind]
  refine wp_ofExcept (fun basket _ => ?_) fun _ _ => herr s₁ hcore
  rw [wp_atomically]
  refine wp_mono wp_doCreateAction ?_ fun _ _ => herr s₁ hcore
  rintro r s' ⟨href, id, hreports⟩
  exact hok user.userId id r s' href (hreports.of_sameCore hcore)

end WalletToolbox.Storage
