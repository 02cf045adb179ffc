import WalletToolbox.Methods.ListActions
import WalletToolbox.System

/-! # What listActions says of a transaction

The batched reads give each selected transaction the same rows as reads of its own, in some order,
and leave nothing over. -/

namespace WalletToolbox.Storage

open WalletToolbox.Lib

/-! ## The rows of one transaction -/

variable {s : Store} {userId : Nat} {args : ListActionsArgs} {ids : List Nat} {id : Nat}

/-- The text of a user's live label. -/
def labelText (s : Store) (userId txLabelId : Nat) : Option String :=
  (s.txLabels.first fun l => l.txLabelId == txLabelId && l.userId == userId && !l.isDeleted).map
    (·.label)

/-- The live links of a transaction. -/
def linksOf (s : Store) (transactionId : Nat) : List TxLabelMap :=
  s.txLabelMaps.find fun m => m.transactionId == transactionId && !m.isDeleted

/-- The user's labels of a transaction. -/
def userLabels (s : Store) (userId transactionId : Nat) : List String :=
  (linksOf s transactionId).filterMap fun m => labelText s userId m.txLabelId

/-- The user's outputs of a transaction. -/
def userOutputs (s : Store) (userId : Nat) (noScript : Bool) (transactionId : Nat) : List Output :=
  (s.outputs.find fun o => o.userId == userId && o.transactionId == transactionId).map
    (·.read noScript)

/-- The user's outputs that a transaction spends. -/
def userInputs (s : Store) (userId : Nat) (noScript : Bool) (transactionId : Nat) : List Output :=
  (s.outputs.find fun o => o.userId == userId && o.spentBy == some transactionId).map
    (·.read noScript)

/-- The action of a transaction with the user's rows of it. -/
def userAction (s : Store) (userId : Nat) (args : ListActionsArgs) (t : Transaction) : Action :=
  toAction args t (userLabels s userId t.transactionId)
    (userOutputs s userId (!args.includeOutputLockingScripts) t.transactionId)
    (userInputs s userId (!args.includeInputSourceLockingScripts) t.transactionId)

/-- Actions with the same labels, inputs and outputs, in whatever order. -/
structure Action.Same (a b : Action) : Prop where
  txid : a.txid = b.txid
  satoshis : a.satoshis = b.satoshis
  status : a.status = b.status
  isOutgoing : a.isOutgoing = b.isOutgoing
  description : a.description = b.description
  version : a.version = b.version
  lockTime : a.lockTime = b.lockTime
  labels : Option.Rel List.Perm a.labels b.labels
  inputs : Option.Rel List.Perm a.inputs b.inputs
  outputs : Option.Rel List.Perm a.outputs b.outputs

theorem listed_perm {α : Type} {xs ys : List α} (h : xs.Perm ys) :
    Option.Rel List.Perm (listed xs) (listed ys) := by
  cases xs with
  | nil =>
    rw [← h.nil_eq]
    exact Option.Rel.none
  | cons x xs =>
    cases ys with
    | nil => exact absurd h.eq_nil (List.cons_ne_nil x xs)
    | cons y ys => exact Option.Rel.some h

theorem optionRel_perm_trans {α : Type} {x y z : Option (List α)} (h₁ : Option.Rel List.Perm x y)
    (h₂ : Option.Rel List.Perm y z) : Option.Rel List.Perm x z := by
  cases h₁ with
  | none =>
    cases h₂ with
    | none => exact Option.Rel.none
  | some h₁ =>
    cases h₂ with
    | some h₂ => exact Option.Rel.some (h₁.trans h₂)

theorem Action.Same.trans {a b c : Action} (h₁ : a.Same b) (h₂ : b.Same c) : a.Same c where
  txid := h₁.txid.trans h₂.txid
  satoshis := h₁.satoshis.trans h₂.satoshis
  status := h₁.status.trans h₂.status
  isOutgoing := h₁.isOutgoing.trans h₂.isOutgoing
  description := h₁.description.trans h₂.description
  version := h₁.version.trans h₂.version
  lockTime := h₁.lockTime.trans h₂.lockTime
  labels := optionRel_perm_trans h₁.labels h₂.labels
  inputs := optionRel_perm_trans h₁.inputs h₂.inputs
  outputs := optionRel_perm_trans h₁.outputs h₂.outputs

theorem toAction_same {t : Transaction} {labels labels' : List String}
    {outputs outputs' inputs inputs' : List Output}
    (hlabels : args.includeLabels = true → labels.Perm labels')
    (houtputs : args.includeOutputs = true → outputs.Perm outputs')
    (hinputs : args.includeInputs = true → inputs.Perm inputs') :
    (toAction args t labels outputs inputs).Same (toAction args t labels' outputs' inputs') where
  txid := rfl
  satoshis := rfl
  status := rfl
  isOutgoing := rfl
  description := rfl
  version := rfl
  lockTime := rfl
  labels := by
    unfold toAction
    by_cases h : args.includeLabels = true
    · simp only [h, if_true]
      exact listed_perm (hlabels h)
    · simp only [h]
      exact Option.Rel.none
  inputs := by
    unfold toAction
    by_cases h : args.includeInputs = true
    · simp only [h, if_true]
      exact listed_perm ((hinputs h).map _)
    · simp only [h]
      exact Option.Rel.none
  outputs := by
    unfold toAction
    by_cases h : args.includeOutputs = true
    · simp only [h, if_true]
      exact listed_perm ((houtputs h).map _)
    · simp only [h]
      exact Option.Rel.none

/-! ## Batched reads -/

theorem chunkSize_pos : 0 < enrichmentInChunkSize := by decide

@[simp] theorem Output.read_transactionId (noScript : Bool) (o : Output) :
    (o.read noScript).transactionId = o.transactionId := by
  cases noScript <;> rfl

@[simp] theorem Output.read_spentBy (noScript : Bool) (o : Output) :
    (o.read noScript).spentBy = o.spentBy := by
  cases noScript <;> rfl

/-- The links of one transaction among those that are read in batches. -/
theorem linksOf_batched (hids : ids.Nodup) (hid : id ∈ ids) :
    (((chunks enrichmentInChunkSize ids).flatMap (findTxLabelMaps s)).filter
      (·.transactionId == id)).Perm (linksOf s id) := by
  refine filter_flatMap_chunks chunkSize_pos hids hid ?_ ?_
  · intro c hc
    rw [findTxLabelMaps, linksOf, Table.find, Table.find, List.filter_filter]
    refine List.Perm.of_eq (List.filter_congr fun m _ => ?_)
    by_cases hm : m.transactionId = id
    · simp [hm, hc]
    · simp [beq_false_of_ne hm]
  · intro c hc
    rw [List.filter_eq_nil_iff]
    intro m hm heq
    rw [findTxLabelMaps, Table.find, List.mem_filter, Bool.and_eq_true, List.contains_iff_mem] at hm
    exact hc (eq_of_beq heq ▸ hm.2.1)

theorem mem_findTxLabels_batched {l : TxLabel} :
    l ∈ (chunks enrichmentInChunkSize ids).flatMap (findTxLabels s userId) ↔
      ∃ i ∈ ids, l ∈ s.txLabels ∧ l.txLabelId = i ∧ l.userId = userId ∧ l.isDeleted = false := by
  refine @mem_flatMap_chunks Nat TxLabel ids _ _ chunkSize_pos
    (fun i l => l ∈ s.txLabels ∧ l.txLabelId = i ∧ l.userId = userId ∧ l.isDeleted = false)
    (fun c l => ?_) l
  rw [findTxLabels, Table.find, List.mem_filter]
  simp only [Bool.and_eq_true, List.contains_iff_mem, beq_iff_eq, Bool.not_eq_true']
  constructor
  · rintro ⟨hmem, ⟨hid, huser⟩, hlive⟩
    exact ⟨l.txLabelId, hid, hmem, rfl, huser, hlive⟩
  · rintro ⟨_, hid, hmem, rfl, huser, hlive⟩
    exact ⟨hmem, ⟨hid, huser⟩, hlive⟩

/-- The index of the labels that were read finds the text of each of them. -/
theorem labelsById_eq (hid : id ∈ ids) :
    (indexBy (·.txLabelId) (·.label)
      ((chunks enrichmentInChunkSize ids).flatMap (findTxLabels s userId)))[id]? =
      labelText s userId id := by
  unfold labelText
  cases hfirst : s.txLabels.first fun l => l.txLabelId == id && l.userId == userId && !l.isDeleted with
  | none =>
    refine indexBy_eq_none fun l hl hkey => ?_
    obtain ⟨i, _, hmem, hi, huser, hlive⟩ := mem_findTxLabels_batched.mp hl
    have hno := Table.first_none.mp hfirst l hmem
    simp [hkey, huser, hlive] at hno
  | some label =>
    obtain ⟨hmem, hcond⟩ := Table.first_some hfirst
    simp only [Bool.and_eq_true, beq_iff_eq, Bool.not_eq_true'] at hcond
    obtain ⟨⟨hkey, huser⟩, hlive⟩ := hcond
    refine indexBy_eq_some
      ⟨label, mem_findTxLabels_batched.mpr ⟨id, hid, hmem, hkey, huser, hlive⟩, hkey⟩ fun l hl hl' => ?_
    obtain ⟨_, _, hlmem, _⟩ := mem_findTxLabels_batched.mp hl
    rw [Table.eq_of_key_eq hlmem hmem (hl'.trans hkey.symm)]

theorem filterMap_pair_filter {α β : Type} (k : α → Nat) (v : α → Option β) (xs : List α) :
    ((xs.filterMap fun x => (v x).map fun b => (k x, b)).filter (·.1 == id)).map Prod.snd =
      (xs.filter fun x => k x == id).filterMap v := by
  induction xs with
  | nil => rfl
  | cons x xs ih =>
    rw [List.filterMap_cons, List.filter_cons]
    cases hv : v x with
    | none =>
      by_cases hk : k x = id
      · simp [hk, hv, ih]
      · simp [hk, ih]
    | some b =>
      by_cases hk : k x = id
      · simp [hk, hv, ih]
      · simp [hk, ih]

theorem labelsByTransaction_getD (hids : ids.Nodup) (hid : id ∈ ids) :
    ((labelsByTransaction s userId ids).getD id []).Perm (userLabels s userId id) := by
  rw [labelsByTransaction, Groups.getD_collect,
    filterMap_pair_filter (fun m : TxLabelMap => m.transactionId) (fun m => (indexBy _ _ _)[m.txLabelId]?)]
  have htext : ∀ m ∈ ((chunks enrichmentInChunkSize ids).flatMap (findTxLabelMaps s)).filter
      (·.transactionId == id),
      (indexBy (·.txLabelId) (·.label) ((chunks enrichmentInChunkSize
        (((chunks enrichmentInChunkSize ids).flatMap (findTxLabelMaps s)).map
          (·.txLabelId)).eraseDups).flatMap (findTxLabels s userId)))[m.txLabelId]? =
        labelText s userId m.txLabelId := by
    intro m hm
    refine labelsById_eq (List.mem_eraseDups.mpr (List.mem_map.mpr ⟨m, ?_, rfl⟩))
    exact (List.mem_filter.mp hm).1
  rw [List.filterMap_congr htext]
  exact (linksOf_batched hids hid).filterMap _

theorem outputsByTransaction_getD {noScript : Bool} (hids : ids.Nodup) (hid : id ∈ ids) :
    ((outputsByTransaction s userId noScript ids).getD id []).Perm
      (userOutputs s userId noScript id) := by
  have hpair : ∀ xs : List Output, ((xs.map fun o => (o.transactionId, o)).filter (·.1 == id)).map
      Prod.snd = xs.filter (·.transactionId == id) := by
    intro xs
    simp [List.filter_map, Function.comp_def]
  rw [outputsByTransaction, Groups.getD_collect, hpair]
  refine filter_flatMap_chunks chunkSize_pos hids hid ?_ ?_
  · intro c hc
    refine ((List.mergeSort_perm _ _).filter _).trans (List.Perm.of_eq ?_)
    rw [userOutputs, Table.find, Table.find, List.filter_map, List.filter_filter]
    refine congrArg _ (List.filter_congr fun o _ => ?_)
    by_cases ho : o.transactionId = id
    · simp [ho, hc]
    · simp [beq_false_of_ne ho]
  · intro c hc
    rw [List.filter_eq_nil_iff]
    intro o ho heq
    rw [findOutputsOf, List.mem_mergeSort, List.mem_map] at ho
    obtain ⟨o, ho, rfl⟩ := ho
    rw [Table.find, List.mem_filter, Bool.and_eq_true, List.contains_iff_mem] at ho
    rw [Output.read_transactionId] at heq
    exact hc (eq_of_beq heq ▸ ho.2.2)

theorem inputsByTransaction_getD {noScript : Bool} (hids : ids.Nodup) (hid : id ∈ ids) :
    ((inputsByTransaction s userId noScript ids).getD id []).Perm
      (userInputs s userId noScript id) := by
  have hpair : ∀ xs : List Output,
      ((xs.filterMap fun o => o.spentBy.map fun i => (i, o)).filter (·.1 == id)).map Prod.snd =
        xs.filter (·.spentBy == some id) := by
    intro xs
    induction xs with
    | nil => rfl
    | cons o xs ih =>
      rw [List.filterMap_cons, List.filter_cons]
      cases ho : o.spentBy with
      | none => simpa using ih
      | some i =>
        by_cases hi : i = id
        · simpa [hi] using ih
        · simpa [hi] using ih
  rw [inputsByTransaction, Groups.getD_collect, hpair]
  refine filter_flatMap_chunks chunkSize_pos hids hid ?_ ?_
  · intro c hc
    rw [findOutputsSpentBy, userInputs, Table.find, Table.find, List.filter_map, List.filter_filter]
    refine List.Perm.of_eq (congrArg _ (List.filter_congr fun o _ => ?_))
    cases ho : o.spentBy with
    | none => simp [ho]
    | some i =>
      by_cases hi : i = id
      · simp [ho, hi, hc]
      · simp [ho, beq_false_of_ne hi]
  · intro c hc
    rw [List.filter_eq_nil_iff]
    intro o ho heq
    rw [findOutputsSpentBy, List.mem_map] at ho
    obtain ⟨o, ho, rfl⟩ := ho
    rw [Table.find, List.mem_filter, Bool.and_eq_true] at ho
    rw [Output.read_spentBy] at heq
    have hspent := ho.2.2
    rw [eq_of_beq heq, Option.any_some, List.contains_iff_mem] at hspent
    exact hc hspent

/-! ## Nothing is left over -/

theorem mem_labelsByTransaction (h : id ∈ labelsByTransaction s userId ids) : id ∈ ids := by
  rw [labelsByTransaction, Groups.mem_collect, List.mem_map] at h
  obtain ⟨e, he, rfl⟩ := h
  obtain ⟨m, hm, hlabel⟩ := List.mem_filterMap.mp he
  obtain ⟨_, _, rfl⟩ := Option.map_eq_some_iff.mp hlabel
  obtain ⟨c, hc, hmc⟩ := List.mem_flatMap.mp hm
  rw [findTxLabelMaps, Table.find, List.mem_filter, Bool.and_eq_true, List.contains_iff_mem] at hmc
  rw [← flatten_chunks chunkSize_pos ids]
  exact List.mem_flatten.mpr ⟨c, hc, hmc.2.1⟩

theorem mem_outputsByTransaction {noScript : Bool}
    (h : id ∈ outputsByTransaction s userId noScript ids) : id ∈ ids := by
  rw [outputsByTransaction, Groups.mem_collect, List.mem_map] at h
  obtain ⟨e, he, rfl⟩ := h
  obtain ⟨o, ho, rfl⟩ := List.mem_map.mp he
  obtain ⟨c, hc, hoc⟩ := List.mem_flatMap.mp ho
  rw [findOutputsOf, List.mem_mergeSort, List.mem_map] at hoc
  obtain ⟨o, hoc, rfl⟩ := hoc
  rw [Table.find, List.mem_filter, Bool.and_eq_true, List.contains_iff_mem] at hoc
  rw [Output.read_transactionId, ← flatten_chunks chunkSize_pos ids]
  exact List.mem_flatten.mpr ⟨c, hc, hoc.2.2⟩

theorem mem_inputsByTransaction {noScript : Bool}
    (h : id ∈ inputsByTransaction s userId noScript ids) : id ∈ ids := by
  rw [inputsByTransaction, Groups.mem_collect, List.mem_map] at h
  obtain ⟨e, he, rfl⟩ := h
  obtain ⟨o, ho, hspent⟩ := List.mem_filterMap.mp he
  obtain ⟨i, hi, rfl⟩ := Option.map_eq_some_iff.mp hspent
  obtain ⟨c, hc, hoc⟩ := List.mem_flatMap.mp ho
  rw [findOutputsSpentBy, List.mem_map] at hoc
  obtain ⟨o, hoc, rfl⟩ := hoc
  rw [Table.find, List.mem_filter, Bool.and_eq_true] at hoc
  rw [Output.read_spentBy] at hi
  have hmem := hoc.2.2
  rw [hi, Option.any_some, List.contains_iff_mem] at hmem
  rw [← flatten_chunks chunkSize_pos ids]
  exact List.mem_flatten.mpr ⟨c, hc, hmem⟩

/-! ## The loop -/

/-- What is left of the groups when the rows of some transactions are taken. -/
def Enrichment.drop (e : Enrichment) (ids : List Nat) : Enrichment :=
  { labels := e.labels.drop ids, outputs := e.outputs.drop ids, inputs := e.inputs.drop ids }

/-- The action of a transaction with the rows that the groups hold for it. -/
def actionFrom (args : ListActionsArgs) (e : Enrichment) (t : Transaction) : Action :=
  toAction args t (e.labels.getD t.transactionId []) (e.outputs.getD t.transactionId [])
    (e.inputs.getD t.transactionId [])

theorem assembleActions_eq {txs : List Transaction} (hids : (txs.map (·.transactionId)).Nodup)
    (e : Enrichment) :
    assembleActions args e txs =
      (txs.map (actionFrom args e), e.drop (txs.map (·.transactionId))) := by
  induction txs generalizing e with
  | nil => rfl
  | cons t txs ih =>
    rw [List.map_cons, List.nodup_cons] at hids
    rw [assembleActions, ih hids.2, List.map_cons]
    refine Prod.ext (congrArg (actionFrom args e t :: ·) (List.map_congr_left fun t' ht' => ?_)) rfl
    have hne : t.transactionId ≠ t'.transactionId := fun heq =>
      hids.1 (heq ▸ List.mem_map.mpr ⟨t', ht', rfl⟩)
    simp only [actionFrom, Groups.getD_erase_of_ne hne]

theorem enrichment_left (s : Store) (userId : Nat) (args : ListActionsArgs) (txIds : List Nat) :
    ((enrichment s userId args txIds).drop txIds).labels.isEmpty = true ∧
      ((enrichment s userId args txIds).drop txIds).outputs.isEmpty = true ∧
      ((enrichment s userId args txIds).drop txIds).inputs.isEmpty = true := by
  refine ⟨Groups.isEmpty_drop fun id hid => ?_, Groups.isEmpty_drop fun id hid => ?_,
    Groups.isEmpty_drop fun id hid => ?_⟩
  · unfold enrichment at hid
    by_cases h : args.includeLabels = true
    · simp only [h, if_true] at hid
      exact mem_labelsByTransaction hid
    · simp [h] at hid
  · unfold enrichment at hid
    by_cases h : args.includeOutputs = true
    · simp only [h, if_true] at hid
      exact mem_outputsByTransaction hid
    · simp [h] at hid
  · unfold enrichment at hid
    by_cases h : args.includeInputs = true
    · simp only [h, if_true] at hid
      exact mem_inputsByTransaction hid
    · simp [h] at hid

theorem actionFrom_enrichment {t : Transaction} (hids : ids.Nodup) (ht : t.transactionId ∈ ids) :
    (actionFrom args (enrichment s userId args ids) t).Same (userAction s userId args t) := by
  refine toAction_same (fun h => ?_) (fun h => ?_) fun h => ?_
  · simp only [enrichment, h, if_true]
    exact labelsByTransaction_getD hids ht
  · simp only [enrichment, h, if_true]
    exact outputsByTransaction_getD hids ht
  · simp only [enrichment, h, if_true]
    exact inputsByTransaction_getD hids ht

/-! ## The selected transactions -/

theorem filterByLabels_sublist (isQueryModeAll : Bool) (labelIds : List Nat)
    (txs : List Transaction) : (filterByLabels s isQueryModeAll labelIds txs).Sublist txs := by
  unfold filterByLabels
  split
  · exact List.Sublist.refl _
  · exact List.filter_sublist

theorem selectTransactions_sublist :
    (selectTransactions s userId args).1.Sublist (s.transactions.find (isListed userId)) := by
  unfold selectTransactions
  dsimp only
  split
  · exact List.nil_sublist _
  split
  · exact List.nil_sublist _
  · exact (filterByLabels_sublist _ _ _).trans
      ((List.take_sublist _ _).trans (List.drop_sublist _ _))

theorem selectTransactions_nodup :
    ((selectTransactions s userId args).1.map (·.transactionId)).Nodup :=
  (s.transactions.nodup_key_find (isListed userId)).sublist (selectTransactions_sublist.map _)

theorem selectTransactions_user {t : Transaction} (ht : t ∈ (selectTransactions s userId args).1) :
    t ∈ s.transactions ∧ t.userId = userId := by
  obtain ⟨hmem, hlisted⟩ := Table.mem_find.mp (selectTransactions_sublist.subset ht)
  rw [isListed, Bool.and_eq_true, beq_iff_eq] at hlisted
  exact ⟨hmem, hlisted.1⟩

/-- listActions describes each selected transaction by the user's rows of it, and its assertions
hold. -/
theorem listActions_ok (s : Store) (userId : Nat) (args : ListActionsArgs) :
    ∃ actions, listActions s userId args =
        .ok { totalActions := (selectTransactions s userId args).2, actions } ∧
      List.Forall₂ (fun t a => a.Same (userAction s userId args t))
        (selectTransactions s userId args).1 actions := by
  have hids : ((selectTransactions s userId args).1.map (·.transactionId)).Nodup :=
    selectTransactions_nodup
  obtain ⟨hlabels, houtputs, hinputs⟩ := enrichment_left s userId args
    ((selectTransactions s userId args).1.map (·.transactionId))
  refine ⟨(selectTransactions s userId args).1.map (actionFrom args (enrichment s userId args
    ((selectTransactions s userId args).1.map (·.transactionId)))), ?_, ?_⟩
  · simp only [listActions, assembleActions_eq hids, hlabels, houtputs, hinputs, debugAssert, if_true]
    rfl
  · rw [List.forall₂_map_right_iff]
    refine List.forall₂_same.mpr fun t ht => ?_
    exact actionFrom_enrichment hids (List.mem_map.mpr ⟨t, ht, rfl⟩)

/-! ## One transaction at a time -/

theorem findTxLabelById_eq (s : Store) (id : Nat) :
    findTxLabelById s id = .ok (s.txLabels.first fun l => l.txLabelId == id) := by
  rw [findTxLabelById]
  cases hfirst : s.txLabels.first fun l => l.txLabelId == id with
  | none => rw [Table.find_eq_nil.mpr (Table.first_none.mp hfirst), verifyOneOrNone]
  | some label =>
    obtain ⟨hmem, hid⟩ := Table.first_some hfirst
    have hrow : (s.txLabels.find fun l => l.txLabelId == id) = [label] :=
      Table.find_singleton hmem hid fun l hl hl' =>
        Table.eq_of_key_eq hl hmem ((eq_of_beq hl').trans (eq_of_beq hid).symm)
    rw [hrow, verifyOneOrNone]

theorem labelsOf_eq (s : Store) (maps : List TxLabelMap) :
    labelsOf s maps = .ok (maps.filterMap fun m =>
      ((s.txLabels.first fun l => l.txLabelId == m.txLabelId).filter (!·.isDeleted)).map (·.label)) := by
  induction maps with
  | nil => rfl
  | cons m maps ih =>
    rw [labelsOf, findTxLabelById_eq, ih, List.filterMap_cons]
    cases s.txLabels.first fun l => l.txLabelId == m.txLabelId with
    | none => rfl
    | some l =>
      cases hl : l.isDeleted <;>
        simp [hl, Option.filter, bind, Except.bind, pure, Except.pure]

/-- The rows that hang on the user's transactions are the user's. -/
structure OwnsRows (s : Store) (userId : Nat) : Prop where
  labels : ∀ t ∈ s.transactions, t.userId = userId →
    ∀ m ∈ s.txLabelMaps, m.transactionId = t.transactionId →
      ∀ l ∈ s.txLabels, l.txLabelId = m.txLabelId → l.userId = userId
  outputs : ∀ t ∈ s.transactions, t.userId = userId →
    ∀ o ∈ s.outputs, o.transactionId = t.transactionId → o.userId = userId
  inputs : ∀ t ∈ s.transactions, t.userId = userId →
    ∀ o ∈ s.outputs, o.spentBy = some t.transactionId → o.userId = userId

theorem pushed_eq {α β : Type} (entry : α → β) (rows : List α) :
    pushed entry rows = listed (rows.map entry) := by
  have hsome : ∀ (rows : List α) (entries : List β),
      rows.foldl (fun entries row => some (entries.getD [] ++ [entry row])) (some entries) =
        some (entries ++ rows.map entry) := by
    intro rows
    induction rows with
    | nil => simp
    | cons row rows ih => simp [ih]
  cases rows with
  | nil => rfl
  | cons row rows => exact hsome rows [entry row]

/-- The conversions of the reference are those of the batched listing. -/
theorem referenceAction_toAction (args : ListActionsArgs) (t : Transaction) :
    referenceAction s args t = (if args.includeLabels then labelsOf s (linksOf s t.transactionId)
      else pure []) >>= fun labels => pure (toAction args t labels
        ((s.outputs.find fun o => o.transactionId == t.transactionId).map
          (·.read (!args.includeOutputLockingScripts)))
        ((s.outputs.find fun o => o.spentBy == some t.transactionId).map
          (·.read (!args.includeInputSourceLockingScripts)))) := by
  unfold referenceAction
  simp only [pushed_eq]
  cases hlabels : args.includeLabels with
  | true => simp only [toAction, hlabels, if_true]; rfl
  | false => simp only [toAction, hlabels, Bool.false_eq_true, if_false]; rfl

theorem referenceAction_eq (args : ListActionsArgs) (hrows : OwnsRows s userId) {t : Transaction} (ht : t ∈ s.transactions)
    (huser : t.userId = userId) :
    ∃ a, referenceAction s args t = .ok a ∧ (userAction s userId args t).Same a := by
  have hlabels : (linksOf s t.transactionId).filterMap (fun m =>
      ((s.txLabels.first fun l => l.txLabelId == m.txLabelId).filter (!·.isDeleted)).map (·.label)) =
      userLabels s userId t.transactionId := by
    refine List.filterMap_congr fun m hm => ?_
    obtain ⟨hmem, hlink⟩ := Table.mem_find.mp hm
    rw [Bool.and_eq_true, beq_iff_eq] at hlink
    unfold labelText
    cases hfirst : s.txLabels.first fun l => l.txLabelId == m.txLabelId with
    | none =>
      have hnone := Table.first_none.mp hfirst
      rw [Table.first_none.mpr fun l hl => by simp [hnone l hl]]
      rfl
    | some label =>
      obtain ⟨hlmem, hlid⟩ := Table.first_some hfirst
      have howner := hrows.labels t ht huser m hmem hlink.1 label hlmem (eq_of_beq hlid)
      have honly : ∀ l ∈ s.txLabels, l.txLabelId = m.txLabelId → l = label := fun l hl hl' =>
        Table.eq_of_key_eq hl hlmem (hl'.trans (eq_of_beq hlid).symm)
      cases hdeleted : label.isDeleted with
      | true =>
        rw [Table.first_none.mpr fun l hl => ?_]
        · simp [hdeleted]
        · by_cases hl' : l.txLabelId = m.txLabelId
          · simp [honly l hl hl', hdeleted]
          · simp [beq_false_of_ne hl']
      | false =>
        have hsome : (s.txLabels.first fun l =>
            l.txLabelId == m.txLabelId && l.userId == userId && !l.isDeleted) = some label := by
          rw [Table.first_eq_head, Table.find_singleton hlmem (by simp [hlid, howner, hdeleted])
            fun l hl hl' => honly l hl (by simp at hl'; exact hl'.1.1)]
          rfl
        rw [hsome]
        simp [hdeleted]
  have houtputs : (s.outputs.find fun o => o.transactionId == t.transactionId) =
      s.outputs.find fun o => o.userId == userId && o.transactionId == t.transactionId := by
    refine List.filter_congr fun o ho => ?_
    by_cases hid : o.transactionId = t.transactionId
    · simp [hrows.outputs t ht huser o ho hid]
    · simp [beq_false_of_ne hid]
  have hinputs : (s.outputs.find fun o => o.spentBy == some t.transactionId) =
      s.outputs.find fun o => o.userId == userId && o.spentBy == some t.transactionId := by
    refine List.filter_congr fun o ho => ?_
    by_cases hid : o.spentBy = some t.transactionId
    · simp [hrows.inputs t ht huser o ho hid]
    · simp [beq_false_of_ne hid]
  refine ⟨toAction args t (if args.includeLabels then userLabels s userId t.transactionId else [])
    (userOutputs s userId (!args.includeOutputLockingScripts) t.transactionId)
    (userInputs s userId (!args.includeInputSourceLockingScripts) t.transactionId), ?_, ?_⟩
  · rw [referenceAction_toAction, labelsOf_eq, hlabels, houtputs, hinputs]
    cases args.includeLabels <;> rfl
  · refine toAction_same (fun h => ?_) (fun _ => List.Perm.refl _) fun _ => List.Perm.refl _
    rw [if_pos h]

theorem forall₂_through {α β γ : Type} {R : α → β → Prop} {R' : α → γ → Prop} {Q : β → γ → Prop}
    (hQ : ∀ a b c, R a b → R' a c → Q b c) {as : List α} {bs : List β} {cs : List γ}
    (h : List.Forall₂ R as bs) (h' : List.Forall₂ R' as cs) : List.Forall₂ Q bs cs := by
  induction h generalizing cs with
  | nil =>
    cases h'
    exact .nil
  | cons hab _ ih =>
    cases h' with
    | cons hac hrest => exact .cons (hQ _ _ _ hab hac) (ih hrest)

/-- Batched listing is listing one transaction after another: the same actions, with the same labels,
inputs and outputs in some order. -/
theorem listActions_eq_reference (s : Store) (userId : Nat) (args : ListActionsArgs)
    (hrows : OwnsRows s userId) :
    ∃ result reference, listActions s userId args = .ok result ∧
      assemblePerTransactionReference s (selectTransactions s userId args).1 args = .ok reference ∧
      List.Forall₂ Action.Same result.actions reference.actions := by
  obtain ⟨actions, hlist, hactions⟩ := listActions_ok s userId args
  have hreference : ∀ txs : List Transaction, (∀ t ∈ txs, t ∈ s.transactions ∧ t.userId = userId) →
      ∃ bs, txs.mapM (referenceAction s args) = .ok bs ∧
        List.Forall₂ (fun t b => (userAction s userId args t).Same b) txs bs := by
    intro txs htxs
    induction txs with
    | nil => exact ⟨[], rfl, .nil⟩
    | cons t txs ih =>
      obtain ⟨hmem, huser⟩ := htxs t List.mem_cons_self
      obtain ⟨b, hb, hsame⟩ := referenceAction_eq args hrows hmem huser
      obtain ⟨bs, hbs, hall⟩ := ih fun t' ht' => htxs t' (List.mem_cons_of_mem t ht')
      refine ⟨b :: bs, ?_, .cons hsame hall⟩
      rw [List.mapM_cons, hb, hbs]
      rfl
  obtain ⟨bs, hbs, hall⟩ := hreference _ fun t ht => selectTransactions_user ht
  refine ⟨_, { totalActions := (selectTransactions s userId args).1.length % 4294967296, actions := bs },
    hlist, ?_, ?_⟩
  · rw [assemblePerTransactionReference, hbs]
    rfl
  · exact forall₂_through (fun _ _ _ h h' => h.trans h') hactions hall

/-- A store with a labelled action that spends an output of an earlier one. -/
def listingStore : Store :=
  (Prog.run Stmt.exec (do
    let (user, _) ← findOrInsertUser "alice"
    let label ← findOrInsertTxLabel user.userId "rent"
    let now ← utcNow
    let transaction (reference : String) : Transaction :=
      { createdAt := now, updatedAt := now, userId := user.userId, provenTxId := none
        status := .completed, reference, isOutgoing := true, satoshis := 1000, description := ""
        version := some 1, lockTime := none, txid := some reference, inputBeef := none, rawTx := none }
    let earlier ← Storage.exec (.insertTransaction (transaction "earlier"))
    let later ← Storage.exec (.insertTransaction (transaction "later"))
    let _ ← Storage.exec (.insertOutput
      { createdAt := now, updatedAt := now, userId := user.userId, transactionId := earlier
        basketId := none, spendable := false, change := false, outputDescription := none, vout := 0
        satoshis := 1000, providedBy := .you, purpose := "", outputType := "", txid := some "earlier"
        senderIdentityKey := none, derivationPrefix := none, derivationSuffix := none
        customInstructions := none, spentBy := some later, sequenceNumber := none
        spendingDescription := none, scriptLength := none, scriptOffset := none
        lockingScript := none })
    Storage.exec (.insertTxLabelMap
      { createdAt := now, updatedAt := now, txLabelId := label.txLabelId, transactionId := later
        isDeleted := false })) (Store.empty.tick 1700000000000)).2

def listingArgs : ListActionsArgs :=
  { labels := [], labelQueryMode := none, includeLabels := true, includeInputs := true
    includeInputSourceLockingScripts := true, includeOutputs := true
    includeOutputLockingScripts := true, limit := none, offset := none }

theorem listActions_eq_reference_listing :
    ∃ result reference, listActions listingStore 1 listingArgs = .ok result ∧
      assemblePerTransactionReference listingStore (selectTransactions listingStore 1 listingArgs).1
        listingArgs = .ok reference ∧
      List.Forall₂ Action.Same result.actions reference.actions :=
  listActions_eq_reference listingStore 1 listingArgs
    ⟨by decide +kernel, by decide +kernel, by decide +kernel⟩

end WalletToolbox.Storage
