import WalletToolbox.Laws.ChangeAmounts
import WalletToolbox.Laws.OutputOrder

/-! # The outpoints that a plan spends

The inputs of a plan come from three places: outpoints that the caller names, the change of earlier
noSend actions, and the basket.
A row is claimed when it is taken, so it is not taken again.
What is not claimed are the outpoints without a row, and the rows that two of the lists hold at a
time. -/

namespace WalletToolbox.Storage

open WalletToolbox.Lib WalletToolbox.Signer
open WalletToolbox.Lib.Prog hiding pure exec

/-- The outpoint that an input for a row names. -/
def Output.outpoint (o : Output) : StorageOutPoint :=
  ⟨o.txid.getD "", o.vout⟩

/-- The user has a row for the outpoint. -/
def hasRow (s : Store) (userId : Nat) (x : StorageOutPoint) : Bool :=
  s.outputs.exists? fun o => o.userId == userId && o.txid == some x.txid && o.vout == x.vout

/-- The outpoints of a list that the user has no row for. -/
def outsideOf (s : Store) (userId : Nat) (points : List StorageOutPoint) : List StorageOutPoint :=
  points.filter fun x => !hasRow s userId x

/-- The user's free rows have outpoints of their own. -/
structure OwnOutpoints (s : Store) (userId : Nat) : Prop where
  txid : ∀ o ∈ s.outputs, Free userId o → o.txid ≠ none
  distinct : ∀ o ∈ s.outputs, ∀ o' ∈ s.outputs, Free userId o → Free userId o' →
    o.txid = o'.txid → o.vout = o'.vout → o = o'

/-- The parents of the noSend change are not in a status whose change the basket offers. -/
def HeldBack (s : Store) (userId : Nat) (args : StorageCreateActionArgs) : Prop :=
  args.isNoSend = true → ∀ op ∈ args.noSendChange, ∀ o ∈ s.outputs, o.userId = userId →
    o.txid = some op.txid → o.vout = op.vout → ∀ t ∈ s.transactions,
      t.transactionId = o.transactionId → changeTxStatus args.isDelayed t.status = false

/-- The effect so far, with the rows taken so far: they are different and claimed. -/
structure TakenRows (s₀ : Store) (userId id : Nat) (reference : String) (rows : List Output) (s : Store) :
    Prop where
  created : Created s₀ s userId id reference
  nodup : rows.Nodup
  claimed : ∀ o ∈ rows, Claimed s₀ s userId id o

section Steps

variable {sdk : Sdk} {s₀ s s' : Store} {userId id : Nat} {reference : String} {rows : List Output}

/-- A claimed row is no longer free. -/
theorem Claimed.not_spendable {o : Output} (h : Claimed s₀ s userId id o) (ho : o ∈ s.outputs) :
    o.spendable = false := by
  obtain ⟨-, -, now, hclaim⟩ := h
  have hsame : claim now id o = o := Table.eq_of_key_eq hclaim ho rfl
  rw [← hsame]
  rfl

theorem TakenRows.reports (h : TakenRows s₀ userId id reference rows s) :
    Reports s₀ userId id reference [] s :=
  ⟨h.created, by simp⟩

theorem TakenRows.step {w : Stmt} {n : Nat} (h : TakenRows s₀ userId id reference rows s)
    (hexec : w.exec s = .ok (n, s')) (hw : CreateStmt userId id w) :
    TakenRows s₀ userId id reference rows s' :=
  ⟨h.created.step hexec hw, h.nodup, fun o ho => (h.claimed o ho).step hexec hw⟩

/-- A part of the call that takes no row. -/
theorem TakenRows.keeps {α : Type} {p : StorageProg α} (hp : p.Emits (CreateStmt userId id))
    (h : TakenRows s₀ userId id reference rows s) :
    wp Stmt.exec p (fun _ => TakenRows s₀ userId id reference rows) (fun _ => True) s := by
  have hstep : ∀ (w : Stmt) (s : Store) (n : Nat) (s' : Store), CreateStmt userId id w →
      TakenRows s₀ userId id reference rows s → w.exec s = .ok (n, s') →
      TakenRows s₀ userId id reference rows s' := fun _ _ _ _ hw h hexec => h.step hexec hw
  exact wp_mono (hp.wp hstep h) (fun _ _ h => h) fun _ _ => trivial

/-- Rows that were free until now are taken when they are claimed. -/
theorem TakenRows.add {more : List Output} (h : TakenRows s₀ userId id reference rows s)
    (h' : TakenRows s₀ userId id reference rows s') (hnodup : more.Nodup)
    (hfree : ∀ o ∈ more, o ∈ s.outputs ∧ o.spendable = true)
    (hclaimed : ∀ o ∈ more, Claimed s₀ s' userId id o) :
    TakenRows s₀ userId id reference (rows ++ more) s' := by
  refine ⟨h'.created, List.nodup_append'.mpr ⟨h.nodup, hnodup, fun o ho hmore => ?_⟩, fun o ho => ?_⟩
  · obtain ⟨hmem, hspendable⟩ := hfree o hmore
    rw [(h.claimed o ho).not_spendable hmem] at hspendable
    cases hspendable
  · rcases List.mem_append.mp ho with hold | hnew
    · exact h'.claimed o hold
    · exact hclaimed o hnew

/-! ## The caller's inputs -/

theorem hasRow_eq_false {x : StorageOutPoint} :
    hasRow s userId x = false ↔
      ∀ o ∈ s.outputs, ¬(o.userId = userId ∧ o.txid = some x.txid ∧ o.vout = x.vout) := by
  unfold hasRow
  rw [Table.exists?_eq_false]
  simp

theorem perm_exchange {α : Type} (as bs cs ds : List α) :
    ((as ++ bs) ++ (cs ++ ds)).Perm ((as ++ cs) ++ (bs ++ ds)) := by
  rw [List.append_assoc, List.append_assoc, ← List.append_assoc bs, ← List.append_assoc cs]
  exact (List.perm_append_comm.append_right ds).append_left as

/-- One input of the caller: its row is taken, or it has none. -/
theorem wp_planInput_taken {beef : Option Beef} {planned : Planned}
    {item : StorageCreateActionInput × Nat} (h : TakenRows s₀ userId id reference rows s) :
    wp Stmt.exec (planInput beef userId id planned item)
      (fun p s' => ∃ more, TakenRows s₀ userId id reference (rows ++ more) s' ∧
        p.inputRecords.map (·.outpoint) =
          planned.inputRecords.map (·.outpoint) ++ [item.1.outpoint] ∧
        [item.1.outpoint].Perm
          (more.map Output.outpoint ++ outsideOf s₀ userId [item.1.outpoint]))
      (fun _ => True) s := by
  obtain ⟨input, vin⟩ := item
  have hmarks : ∀ ids, CreateStmt userId id (.markInputsSpent ids id userId) :=
    fun _ => ⟨rfl, rfl⟩
  unfold planInput
  simp only [wp_bind, wp_ask]
  cases hrow : (s.outputs.find fun o => o.userId == userId &&
      o.txid == some input.outpoint.txid && o.vout == input.outpoint.vout).head? with
  | some o =>
    obtain ⟨ho, hsel⟩ := Table.mem_find.mp (List.mem_of_mem_head? hrow)
    simp only [Bool.and_eq_true, beq_iff_eq] at hsel
    dsimp only
    split
    · trivial
    · rename_i hspendable
      simp only [Bool.not_eq_true', Bool.not_eq_false] at hspendable
      rw [wp_bind]
      refine wp_mono (wp_and (wp_markInputsSpent h.reports) (h.keeps (emits_markInputsSpent hmarks)))
        ?_ fun _ _ => trivial
      rintro n s₁ ⟨⟨hn, -, hclaimed⟩, h₁⟩
      split
      · trivial
      · rename_i hone
        have hcount : (s.outputs.find (claimable [o.outputId] userId)).length = [o.outputId].length := by
          rw [List.length_singleton, ← hn]
          exact not_not.mp hone
        have hsel' := claimable_of_length hcount ho (List.mem_singleton.mpr rfl)
        have hclaim := hclaimed o ho hsel'
        have hpoint : o.outpoint = input.outpoint := by
          unfold Output.outpoint
          rw [hsel.1.2, hsel.2]
          rfl
        have hhas : hasRow s₀ userId input.outpoint = true := by
          by_contra hnone
          exact hasRow_eq_false.mp (Bool.not_eq_true _ ▸ hnone) o hclaim.1
            ⟨hsel.1.1, hsel.1.2, hsel.2⟩
        refine ⟨[o], h.add h₁ (List.nodup_singleton o) ?_ ?_, ?_, ?_⟩
        · rintro o' ho'
          rw [List.mem_singleton.mp ho']
          exact ⟨ho, hspendable⟩
        · rintro o' ho'
          rw [List.mem_singleton.mp ho']
          exact hclaim
        · rw [List.map_append]
          rfl
        · rw [List.map_singleton, hpoint, outsideOf, List.filter_cons_of_neg (by simp [hhas])]
          exact .refl _
  | none =>
    dsimp only
    rw [wp_bind]
    refine wp_ofExcept (fun found _ => ?_) fun _ _ => trivial
    obtain ⟨satoshis, script⟩ := found
    rw [wp_pure]
    have hnone : hasRow s₀ userId input.outpoint = false := by
      refine hasRow_eq_false.mpr fun o ho hmatch => ?_
      have hnil := List.head?_eq_none_iff.mp hrow
      rcases h.created.keptOutputs o ho with hkept | ⟨-, now, hkept⟩
      all_goals
        have hno := Table.find_eq_nil.mp hnil _ hkept
        simp [hmatch.1, hmatch.2, claim] at hno
    refine ⟨[], (List.append_nil rows).symm ▸ h, ?_, ?_⟩
    · rw [List.map_append]
      rfl
    · rw [outsideOf, List.filter_cons_of_pos (by simp [hnone])]
      exact .refl _

theorem wp_planInputs_taken {beef : Option Beef} {planned : Planned}
    {items : List (StorageCreateActionInput × Nat)} (h : TakenRows s₀ userId id reference rows s) :
    wp Stmt.exec (items.foldlM (planInput beef userId id) planned)
      (fun p s' => ∃ more, TakenRows s₀ userId id reference (rows ++ more) s' ∧
        p.inputRecords.map (·.outpoint) =
          planned.inputRecords.map (·.outpoint) ++ items.map (·.1.outpoint) ∧
        (items.map (·.1.outpoint)).Perm
          (more.map Output.outpoint ++ outsideOf s₀ userId (items.map (·.1.outpoint))))
      (fun _ => True) s := by
  induction items generalizing planned rows s with
  | nil => exact ⟨[], (List.append_nil rows).symm ▸ h, (List.append_nil _).symm, .refl _⟩
  | cons item items ih =>
    rw [List.foldlM_cons, wp_bind]
    refine wp_mono (wp_planInput_taken h) ?_ fun _ h => h
    rintro p s₁ ⟨first, h₁, hpoints, hperm⟩
    refine wp_mono (ih h₁) ?_ fun _ h => h
    rintro p' s₂ ⟨more, h₂, hpoints', hperm'⟩
    refine ⟨first ++ more, (List.append_assoc ..).symm ▸ h₂, ?_, ?_⟩
    · rw [hpoints', hpoints, List.append_assoc, List.map_cons, List.singleton_append]
    · have hsplit : outsideOf s₀ userId ((item :: items).map (·.1.outpoint)) =
          outsideOf s₀ userId [item.1.outpoint] ++ outsideOf s₀ userId (items.map (·.1.outpoint)) := by
        unfold outsideOf
        rw [← List.filter_append]
        rfl
      rw [hsplit, List.map_append]
      exact (hperm.append hperm').trans (perm_exchange _ _ _ _)

/-! ## The change -/

/-- The admitted rows are free and different, and each is named by an outpoint of the list. -/
theorem wp_noSendChangeRows_admitted {args : StorageCreateActionArgs} {basketId : Nat} :
    wp Stmt.exec (noSendChangeRows args userId basketId)
      (fun rows s' => s' = s ∧ (rows.map (·.outputId)).Nodup ∧ ∀ o ∈ rows, o ∈ s.outputs ∧
        Free userId o ∧ args.isNoSend = true ∧
        ∃ op ∈ args.noSendChange, o.txid = some op.txid ∧ o.vout = op.vout) (fun _ => True) s := by
  unfold noSendChangeRows
  split
  · rename_i hnoSend
    refine wp_foldlM (I := fun (rows : List Output) s' => s' = s ∧ (rows.map (·.outputId)).Nodup ∧
      ∀ o ∈ rows, o ∈ s.outputs ∧ Free userId o ∧ args.isNoSend = true ∧
        ∃ op ∈ args.noSendChange, o.txid = some op.txid ∧ o.vout = op.vout)
      (a := []) (fun op hop rows s₁ h₁ => ?_) ⟨rfl, List.nodup_nil, by simp⟩
    obtain ⟨rfl, hnodup, hrows⟩ := h₁
    unfold admitNoSendChange
    rw [wp_bind, wp_ask, wp_bind]
    refine wp_ofExcept (fun found hfound => ?_) fun _ _ => trivial
    have hfirst := verifyOneOrNone_first hfound
    cases found with
    | none => trivial
    | some o =>
      obtain ⟨ho, hsel⟩ := Table.first_some hfirst.symm
      simp only [Bool.and_eq_true, beq_iff_eq] at hsel
      dsimp only
      split
      · trivial
      · rename_i hok
        split
        · trivial
        · rename_i hnew
          simp only [Bool.not_eq_true, Bool.not_eq_false', noSendChangeOk, Bool.and_eq_true,
            Option.isNone_iff_eq_none] at hok
          refine ⟨rfl, ?_, fun o' ho' => ?_⟩
          · rw [List.map_append]
            refine List.nodup_append'.mpr ⟨hnodup, List.nodup_singleton _, ?_⟩
            intro k hk hsame
            obtain ⟨o', ho', rfl⟩ := List.mem_map.mp hk
            exact hnew (List.any_eq_true.mpr ⟨o', ho', beq_iff_eq.mpr (List.mem_singleton.mp hsame)⟩)
          · rcases List.mem_append.mp ho' with hold | hadded
            · exact hrows o' hold
            · rw [List.mem_singleton.mp hadded]
              exact ⟨ho, ⟨hok.1.1.1.2, hok.1.1.2, hsel.1.1⟩, hnoSend, op, hop, hsel.1.2, hsel.2⟩
  · exact ⟨rfl, List.nodup_nil, by simp⟩

/-- Change generation takes every entry of its lists at most once. -/
theorem generate_subperm {args : GenerateChangeSdkArgs} {noSend available : List AvailableChange}
    {g : GenerateChangeSdkResult} (h : generateChangeSdkWithNoSend args noSend available = .ok g) :
    (g.allocatedChangeInputs.map (·.outputId)).Subperm
      ((noSend ++ available).map (·.outputId)) := by
  have hsub : g.allocatedChangeInputs.Subperm ((noSend ++ available).map inputOf) := by
    rw [(generate_paid_iff h).1]
    exact (List.sublist_append_left _ _).subperm.trans selected_within.inputs
  obtain ⟨inputs, hperm, hsublist⟩ := hsub
  have hids : ((noSend ++ available).map inputOf).map (·.outputId) =
      (noSend ++ available).map (·.outputId) := by
    rw [List.map_map]
    rfl
  rw [← hids]
  exact ⟨inputs.map (·.outputId), hperm.map _, hsublist.map _⟩

/-- The rows found for a list of ids have no other ids. -/
theorem filterMap_find_sublist {pool : List Output} (inputs : List AllocatedChangeInputRef) :
    ((inputs.filterMap fun a => pool.find? (·.outputId == a.outputId)).map (·.outputId)).Sublist
      (inputs.map (·.outputId)) := by
  induction inputs with
  | nil => exact .slnil
  | cons a rest ih =>
    rw [List.filterMap_cons]
    cases hfind : pool.find? (·.outputId == a.outputId) with
    | none => exact ih.cons _
    | some o =>
      have hid : o.outputId = a.outputId := beq_iff_eq.mp (List.find?_some hfind :)
      dsimp only
      rw [List.map_cons, List.map_cons, hid]
      exact ih.cons_cons _

/-- The parent of an available row was there before the action. -/
theorem available_before {basketId : Nat} {isDelayed : Bool} {o : Output}
    (hcreated : Created s₀ s userId id reference) (hfree : Free userId o)
    (ho : o ∈ availableChangeOutputs userId basketId isDelayed s) :
    o ∈ s₀.outputs ∧ ∃ t ∈ s₀.transactions, t.transactionId = o.transactionId ∧
      changeTxStatus isDelayed t.status = true := by
  obtain ⟨hmem, hsel⟩ := Table.mem_find.mp ((List.perm_insertionSort _ _).mem_iff.mp ho)
  simp only [Bool.and_eq_true, beq_iff_eq] at hsel
  obtain ⟨t, ht, hparent⟩ := Table.exists?_eq_true.mp hsel.2
  simp only [Bool.and_eq_true, beq_iff_eq] at hparent
  refine ⟨hcreated.free_mem hmem hfree, t, ?_, hparent⟩
  rcases hcreated.transactions t ht with hold | hnew
  · exact hold
  · have hstatus := hparent.2
    rw [hnew.status] at hstatus
    cases isDelayed <;> cases hstatus

/-- The rows of the change are different, and they were free until the call claimed them. -/
theorem wp_fundAction_free {args : StorageCreateActionArgs} {basket : OutputBasket}
    {fixedInputs : List FixedInput} (hheld : HeldBack s₀ userId args)
    (h : TakenRows s₀ userId id reference rows s) :
    wp Stmt.exec (fundAction args basket userId id fixedInputs)
      (fun funding _ => funding.allocated.Nodup ∧
        ∀ o ∈ funding.allocated, o ∈ s.outputs ∧ o.spendable = true) (fun _ => True) s := by
  unfold fundAction
  rw [wp_bind, wp_ask, wp_bind]
  refine wp_mono wp_noSendChangeRows_admitted ?_ fun _ _ => trivial
  rintro noSend s₁ ⟨rfl, hnoSend, hadmitted⟩
  rw [wp_bind]
  refine wp_ofExcept (fun g hg => ?_) fun _ _ => trivial
  rw [wp_bind]
  refine wp_mono wp_trivial (fun _ s₂ _ => ?_) fun _ h => h
  rw [wp_pure]
  dsimp only
  have hsel : ∀ o ∈ availableChangeOutputs userId basket.basketId args.isDelayed s₁,
      o ∈ s₁.outputs ∧ o.spendable = true := by
    intro o ho
    obtain ⟨hmem, hsel⟩ := Table.mem_find.mp ((List.perm_insertionSort _ _).mem_iff.mp ho)
    simp only [Bool.and_eq_true] at hsel
    exact ⟨hmem, hsel.1.2⟩
  refine ⟨?_, fun o ho => ?_⟩
  · have havailable : ((availableChangeOutputs userId basket.basketId args.isDelayed s₁).map
        (·.outputId)).Nodup :=
      (((List.perm_insertionSort _ _).map _).nodup_iff).mpr (Table.nodup_key_find _ _)
    have hpool : ((noSend.map toAvailable ++ (availableChangeOutputs userId basket.basketId
        args.isDelayed s₁).map toAvailable).map (·.outputId)).Nodup := by
      rw [List.map_append, List.map_map, List.map_map]
      refine List.nodup_append'.mpr ⟨hnoSend, havailable, fun k hk hk' => ?_⟩
      obtain ⟨o, ho, rfl⟩ := List.mem_map.mp hk
      obtain ⟨o', ho', hid⟩ := List.mem_map.mp hk'
      obtain ⟨hmem, hfree, hisNoSend, op, hop, htxid, hvout⟩ := hadmitted o ho
      obtain rfl : o' = o := Table.eq_of_key_eq (hsel o' ho').1 hmem hid
      obtain ⟨hbefore, t, ht, hparent, hstatus⟩ := available_before h.created hfree ho'
      rw [hheld hisNoSend op hop o' hbefore hfree.userId htxid hvout t ht hparent] at hstatus
      cases hstatus
    obtain ⟨ids, hperm, hsublist⟩ := generate_subperm hg
    have hids : (g.allocatedChangeInputs.map (·.outputId)).Nodup :=
      hperm.nodup_iff.mp (hpool.sublist hsublist)
    exact (hids.sublist (filterMap_find_sublist _)).of_map _
  · obtain ⟨a, -, hfind⟩ := List.mem_filterMap.mp ho
    rcases List.mem_append.mp (List.mem_of_find?_eq_some hfind) with havailable | hns
    · exact hsel o havailable
    · exact ⟨(hadmitted o hns).1, (hadmitted o hns).2.1.spendable⟩

theorem wp_fundAction_taken {args : StorageCreateActionArgs} {basket : OutputBasket}
    {fixedInputs : List FixedInput} (hheld : HeldBack s₀ userId args)
    (h : TakenRows s₀ userId id reference rows s) :
    wp Stmt.exec (fundAction args basket userId id fixedInputs)
      (fun funding s' => TakenRows s₀ userId id reference (rows ++ funding.allocated) s')
      (fun _ => True) s := by
  have hmarks : ∀ ids, CreateStmt userId id (.markInputsSpent ids id userId) :=
    fun _ => ⟨rfl, rfl⟩
  refine wp_mono (wp_and (wp_fundAction_free hheld h) (wp_and (wp_fundAction h.reports)
    (h.keeps (emits_fundAction hmarks)))) ?_ fun _ _ => trivial
  rintro funding s' ⟨⟨hnodup, hfree⟩, ⟨-, hclaimed⟩, h'⟩
  exact h.add h' hnodup hfree hclaimed

/-! ## The whole call -/

theorem wp_addChangeInputs_outpoints {allocated : List Output}
    {records : List StorageCreateTransactionSdkInput} :
    wp Stmt.exec (allocated.foldlM (addChangeInput sdk) records)
      (fun inputs _ => inputs.map (·.outpoint) =
        records.map (·.outpoint) ++ allocated.map Output.outpoint) (fun _ => True) s := by
  induction allocated generalizing records s with
  | nil => exact (List.append_nil _).symm
  | cons o allocated ih =>
    rw [List.foldlM_cons, wp_bind]
    unfold addChangeInput
    rw [wp_bind, wp_ask]
    dsimp only
    rw [wp_pure]
    refine wp_mono ih (fun inputs _ hinputs => ?_) fun _ h => h
    rw [hinputs, List.map_append, List.append_assoc]
    rfl

theorem wp_planAction_taken {entropy : Entropy} {args : StorageCreateActionArgs}
    {basket : OutputBasket} {now : Nat} (hheld : HeldBack s₀ userId args)
    (h : TakenRows s₀ userId id reference [] s) :
    wp Stmt.exec (planAction sdk entropy userId args basket now id)
      (fun r s' => ∃ rows, TakenRows s₀ userId id reference rows s' ∧ (r.inputs.map (·.outpoint)).Perm
        (rows.map Output.outpoint ++ outsideOf s₀ userId (args.inputs.map (·.outpoint))))
      (fun _ => True) s := by
  unfold planAction
  rw [wp_bind]
  have hlabels : (forM args.labels (addActionLabel now userId id)).Emits (CreateStmt userId id) :=
    Emits.forM fun label _ => emits_addActionLabel
      (fun l => by simp [CreateStmt, Stmt.OffCore, Stmt.target])
      fun m => by simp [CreateStmt, Stmt.OffCore, Stmt.target]
  refine wp_mono (h.keeps hlabels) (fun _ s₁ h₁ => ?_) fun _ h => h
  rw [wp_bind]
  refine wp_ofExcept (fun beef _ => ?_) fun _ _ => trivial
  rw [wp_bind]
  refine wp_mono (wp_planInputs_taken h₁) ?_ fun _ h => h
  rintro planned s₂ ⟨rows, h₂, hcaller, hperm⟩
  rw [wp_bind]
  refine wp_mono (wp_fundAction_taken hheld h₂) (fun funding s₃ h₃ => ?_) fun _ h => h
  rw [wp_bind]
  refine wp_mono (wp_storeOutputs (fun _ _ _ _ hw h hexec => TakenRows.step h hexec hw) h₃)
    (fun pending s₄ h₄ => ?_) fun _ h => h
  rw [wp_bind]
  refine wp_mono (wp_and wp_addChangeInputs_outpoints (h₄.keeps emits_addChangeInputs)) ?_
    fun _ _ => trivial
  rintro inputs s₅ ⟨hinputs, h₅⟩
  rw [wp_bind]
  refine wp_exec' (fun n s₆ hexec => ?_) fun _ _ => trivial
  refine ⟨rows ++ funding.allocated, ?_, ?_⟩
  · exact h₅.step hexec ⟨rfl, rfl, rfl, rfl, rfl, rfl⟩
  · have hnames : args.inputs.zipIdx.map (·.1.outpoint) = args.inputs.map (·.outpoint) := by
      conv_rhs => rw [← List.zipIdx_map_fst 0 args.inputs, List.map_map]
      rfl
    rw [hnames] at hcaller hperm
    dsimp only
    rw [hinputs, hcaller, List.map_nil, List.nil_append, List.map_append, List.append_assoc]
    refine (hperm.append_right _).trans ?_
    rw [List.append_assoc]
    exact List.perm_append_comm.append_left _

end Steps

/-- Where the user's free rows have outpoints of their own, the outpoints of the claimed rows are
different, and no other input names one of them. -/
theorem nodup_points_iff {s s' : Store} {userId id : Nat} {reference : String} {rows : List Output}
    {points : List StorageOutPoint} (hown : OwnOutpoints s userId)
    (htaken : TakenRows s userId id reference rows s') :
    (rows.map Output.outpoint ++ outsideOf s userId points).Nodup ↔
      (outsideOf s userId points).Nodup := by
  have hpoint : ∀ o ∈ rows, some o.outpoint.txid = o.txid := by
    intro o ho
    obtain ⟨hmem, hfree, -⟩ := htaken.claimed o ho
    obtain ⟨txid, htxid⟩ := Option.ne_none_iff_exists'.mp (hown.txid o hmem hfree)
    unfold Output.outpoint
    rw [htxid]
    rfl
  refine ⟨fun h => (List.nodup_append'.mp h).2.1, fun h => List.nodup_append'.mpr ⟨?_, h, ?_⟩⟩
  · refine htaken.nodup.map_on fun o ho o' ho' hsame => ?_
    obtain ⟨hmem, hfree, -⟩ := htaken.claimed o ho
    obtain ⟨hmem', hfree', -⟩ := htaken.claimed o' ho'
    refine hown.distinct o hmem o' hmem' hfree hfree' ?_ (congrArg (·.vout) hsame :)
    rw [← hpoint o ho, ← hpoint o' ho', hsame]
  · intro x hx hout
    obtain ⟨o, ho, rfl⟩ := List.mem_map.mp hx
    obtain ⟨hmem, hfree, -⟩ := htaken.claimed o ho
    have hnone := (List.mem_filter.mp hout).2
    rw [Bool.not_eq_true', hasRow_eq_false] at hnone
    exact hnone o hmem ⟨hfree.userId, (hpoint o ho).symm, rfl⟩

/-- No outpoint is spent twice exactly when the caller names no outpoint without a row twice; the
user's free rows have outpoints of their own, and the noSend change is not offered by the basket. -/
theorem inputs_distinct_iff (sdk : Sdk) (entropy : Entropy) (userId : Nat)
    (args : StorageCreateActionArgs) (s s' : Store) (r : StorageCreateActionResult)
    (hown : OwnOutpoints s userId) (hheld : HeldBack s userId args)
    (h : (storageCreateAction sdk entropy userId args).run Stmt.exec s = (.ok r, s')) :
    (r.inputs.map (·.outpoint)).Nodup ↔
      (outsideOf s userId (args.inputs.map (·.outpoint))).Nodup := by
  obtain ⟨basket, id, s₁, -, hinsert, hplan⟩ := storageCreateAction_ok h
  have hstart : TakenRows s userId id entropy.reference [] s₁ :=
    ⟨created_insertTransaction hinsert, List.nodup_nil, by simp⟩
  obtain ⟨rows, htaken, hperm⟩ := wp_ok (wp_planAction_taken hheld hstart) hplan
  rw [hperm.nodup_iff]
  exact nodup_points_iff hown htaken

theorem payer_rows :
    ∀ o ∈ Sample.payer.store.outputs, o.txid = some Sample.fundingTxid ∧ o.outputId = 1 := by
  decide +kernel

/-- The payment spends one row. -/
theorem inputs_distinct_payment :
    ∃ r s', payerPlans paymentRequest = (.ok r, s') ∧ (r.inputs.map (·.outpoint)).Nodup := by
  obtain ⟨r, hok, -⟩ := ran_ok payerPlans_payment
  have hown : OwnOutpoints Sample.payer.store 1 :=
    { txid := fun o ho _ => by
        rw [(payer_rows o ho).1]
        exact Option.some_ne_none _
      distinct := fun o ho o' ho' _ _ _ _ =>
        Table.eq_of_key_eq ho ho' ((payer_rows o ho).2.trans (payer_rows o' ho').2.symm) }
  have hnodup : (outsideOf Sample.payer.store 1 (paymentRequest.inputs.map (·.outpoint))).Nodup :=
    List.nodup_nil
  exact ⟨r, _, hok, (inputs_distinct_iff Sample.sdk Sample.entropy 1 paymentRequest Sample.payer.store
    _ r hown nofun hok).mpr hnodup⟩

/-- An outpoint that only the BEEF knows, named twice. -/
def twiceRequest : StorageCreateActionArgs :=
  { description := "twice"
    inputs := [⟨⟨Sample.paymentTxid, 0⟩, 107⟩, ⟨⟨Sample.paymentTxid, 0⟩, 107⟩]
    outputs := [{ lockingScript := "", satoshis := 700, outputDescription := "" }]
    inputBeef := some Sample.pendingAtomic }

theorem payerPlans_twice :
    (payerPlans twiceRequest).1.toOption.map (fun r => r.inputs.map (·.outpoint)) =
      some [⟨Sample.paymentTxid, 0⟩, ⟨Sample.paymentTxid, 0⟩] := by
  decide +kernel

/-- The payer's change as noSend change, after its parent was sent. -/
def chainedRequest : StorageCreateActionArgs :=
  { description := "chained", inputs := []
    outputs := [{ lockingScript := "", satoshis := 700, outputDescription := "" }]
    isNoSend := true, noSendChange := [⟨Sample.paymentTxid, 1⟩] }

/-- The payer's next call, after the payment was sent. -/
def payerChains : Except WalletError StorageCreateActionResult × Store :=
  let signed := Sample.after [Sample.fund, Sample.pay, Sample.sign false]
  let sent := (wallet Sample.sdk).next (Sample.post signed "success") signed
  (storageCreateAction Sample.sdk { Sample.entropy with reference := "bmV4dA==" } 1
    chainedRequest).run Stmt.exec sent

theorem payerChains_result :
    payerChains.1.toOption.map (fun r => r.inputs.map (·.outpoint)) =
      some [⟨Sample.paymentTxid, 1⟩, ⟨Sample.paymentTxid, 1⟩] := by
  decide +kernel

/-- Both the repeated outpoint and the change that is listed twice are spent twice. -/
theorem inputs_repeat :
    (∃ r s', payerPlans twiceRequest = (.ok r, s') ∧ ¬(r.inputs.map (·.outpoint)).Nodup) ∧
      ∃ r s', payerChains = (.ok r, s') ∧ ¬(r.inputs.map (·.outpoint)).Nodup := by
  obtain ⟨r, hok, hpoints⟩ := ran_ok payerPlans_twice
  obtain ⟨r', hok', hpoints'⟩ := ran_ok payerChains_result
  refine ⟨⟨r, _, hok, ?_⟩, r', _, hok', ?_⟩
  · rw [hpoints]
    simp
  · rw [hpoints']
    simp

end WalletToolbox.Storage
