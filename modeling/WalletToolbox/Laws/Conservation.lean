import WalletToolbox.Laws.ChangeAmounts
import WalletToolbox.Laws.OutputOrder

/-! # What a plan spends and pays

While the amounts fit, the inputs of a plan come to its outputs and the fee, and the rows carry the
amounts of the records.
An output that asks for everything is the exception: change generation lowers it, and neither its row
nor its record hears of that. -/

namespace WalletToolbox.Storage

open WalletToolbox.Lib WalletToolbox.Signer
open WalletToolbox.Lib.Prog hiding pure exec

/-! ## The parts of a plan -/

/-- What change generation is called with. -/
structure FundingCall where
  args : GenerateChangeSdkArgs
  noSend : List Output
  available : List Output

/-- The part of createAction before change generation. -/
def fundingCall (sdk : Sdk) (entropy : Entropy) (auth : String) (args : StorageCreateActionArgs) :
    StorageProg FundingCall := do
  let (user, _) ← findOrInsertUser auth
  let now ← utcNow
  let rows ← find fun s =>
    s.outputBaskets.find fun b => b.userId == user.userId && b.name == "default"
  let basket ← Prog.ofExcept (verifyOne rows)
  let transactionId ← exec
    (.insertTransaction (newTransaction now user.userId args entropy.reference))
  forM args.labels (addActionLabel now user.userId transactionId)
  let beef ← Prog.ofExcept (parseInputBeef sdk args.inputBeef)
  let planned ← args.inputs.zipIdx.foldlM (planInput beef user.userId transactionId) {}
  let available ← find (availableChangeOutputs user.userId basket.basketId args.isDelayed)
  let noSend ← noSendChangeRows args user.userId basket.basketId
  pure { args := changeArgs args basket planned.fixedInputs available.length, noSend, available }

/-- The part of storageCreateAction before change generation. -/
def storageFundingCall (sdk : Sdk) (entropy : Entropy) (userId : Nat) (args : StorageCreateActionArgs) :
    StorageProg FundingCall := do
  let now ← utcNow
  let rows ← find fun s => s.outputBaskets.find fun b => b.userId == userId && b.name == "default"
  let basket ← Prog.ofExcept (verifyOne rows)
  let transactionId ← exec (.insertTransaction (newTransaction now userId args entropy.reference))
  forM args.labels (addActionLabel now userId transactionId)
  let beef ← Prog.ofExcept (parseInputBeef sdk args.inputBeef)
  let planned ← args.inputs.zipIdx.foldlM (planInput beef userId transactionId) {}
  let available ← find (availableChangeOutputs userId basket.basketId args.isDelayed)
  let noSend ← noSendChangeRows args userId basket.basketId
  pure { args := changeArgs args basket planned.fixedInputs available.length, noSend, available }

/-- createAction finds the user first. -/
theorem fundingCall_eq (sdk : Sdk) (entropy : Entropy) (auth : String) (args : StorageCreateActionArgs) :
    fundingCall sdk entropy auth args = (do
      let (user, _) ← findOrInsertUser auth
      storageFundingCall sdk entropy user.userId args) :=
  rfl

/-- The call of change generation. -/
def FundingCall.generate (call : FundingCall) : Except WalletError GenerateChangeSdkResult :=
  generateChangeSdkWithNoSend call.args (call.noSend.map toAvailable) (call.available.map toAvailable)

section Inputs

variable {sdk : Sdk} {s s' : Store} {userId id : Nat}

/-- The record of an input as change generation sees it. -/
def sizeOf (r : StorageCreateTransactionSdkInput) : FixedInput :=
  ⟨r.sourceSatoshis, r.unlockingScriptLength⟩

/-- One input of the caller: one record, of the amount and the size planned. -/
theorem wp_planInput_record {beef : Option Beef} {planned : Planned}
    {item : StorageCreateActionInput × Nat} :
    wp Stmt.exec (planInput beef userId id planned item)
      (fun p _ => ∃ r, p.inputRecords = planned.inputRecords ++ [r] ∧
        p.fixedInputs = planned.fixedInputs ++ [sizeOf r]) (fun _ => True) s := by
  obtain ⟨input, vin⟩ := item
  unfold planInput
  simp only [wp_bind, wp_ask]
  split
  · rename_i o _
    split
    · trivial
    · rw [wp_bind]
      refine wp_mono wp_trivial (fun n s₁ _ => ?_) fun _ h => h
      split
      · trivial
      · exact ⟨managedRecord vin input o, rfl, rfl⟩
  · rw [wp_bind]
    refine wp_ofExcept (fun found _ => ?_) fun _ _ => trivial
    exact ⟨externalRecord vin input found.1 found.2, rfl, rfl⟩

theorem wp_planInputs_records {beef : Option Beef} {planned : Planned}
    {items : List (StorageCreateActionInput × Nat)} :
    wp Stmt.exec (items.foldlM (planInput beef userId id) planned)
      (fun p _ => ∃ rs, p.inputRecords = planned.inputRecords ++ rs ∧
        p.fixedInputs = planned.fixedInputs ++ rs.map sizeOf) (fun _ => True) s := by
  induction items generalizing planned s with
  | nil => exact ⟨[], (List.append_nil _).symm, (List.append_nil _).symm⟩
  | cons item items ih =>
    rw [List.foldlM_cons, wp_bind]
    refine wp_mono wp_planInput_record ?_ fun _ h => h
    rintro p s₁ ⟨r, hrecords, hfixed⟩
    refine wp_mono ih ?_ fun _ h => h
    rintro p' _ ⟨rs, hrecords', hfixed'⟩
    refine ⟨r :: rs, ?_, ?_⟩
    · rw [hrecords', hrecords, List.append_assoc, List.singleton_append]
    · rw [hfixed', hfixed, List.append_assoc, List.map_cons, List.singleton_append]

/-- The record of a change input. -/
structure ChangeInput (o : Output) (r : StorageCreateTransactionSdkInput) : Prop where
  satoshis : r.sourceSatoshis = asU64 o.satoshis
  length : r.unlockingScriptLength = 107

theorem wp_addChangeInputs_records {allocated : List Output}
    {records : List StorageCreateTransactionSdkInput} :
    wp Stmt.exec (allocated.foldlM (addChangeInput sdk) records)
      (fun inputs _ => ∃ rs, inputs = records ++ rs ∧ List.Forall₂ ChangeInput allocated rs)
      (fun _ => True) s := by
  induction allocated generalizing records s with
  | nil => exact ⟨[], (List.append_nil _).symm, .nil⟩
  | cons o allocated ih =>
    rw [List.foldlM_cons, wp_bind]
    unfold addChangeInput
    rw [wp_bind, wp_ask]
    dsimp only
    rw [wp_pure]
    refine wp_mono ih ?_ fun _ h => h
    rintro inputs _ ⟨rs, rfl, hrs⟩
    exact ⟨_ :: rs, by rw [List.append_assoc, List.singleton_append], .cons ⟨rfl, rfl⟩ hrs⟩

/-- What a call returns is a plan made from what change generation gives. -/
structure PlanOf (args : StorageCreateActionArgs) (call : FundingCall) (g : GenerateChangeSdkResult)
    (r : StorageCreateActionResult) : Prop where
  arguments : ∃ basket fixedInputs available, call.args = changeArgs args basket fixedInputs available
  inputs : ∃ caller change, r.inputs = caller ++ change ∧ caller.map sizeOf = call.args.fixedInputs ∧
    List.Forall₂ (fun a c => ∃ o, inputOf (toAvailable o) = a ∧ ChangeInput o c)
      g.allocatedChangeInputs change
  outputs : Records args.outputs g.changeOutputs r.outputs
  ordered : args.randomizeOutputs = some false →
    r.outputs.map (·.vout) = List.range r.outputs.length

theorem forall₂_chain {α β γ : Type} {R : α → β → Prop} {S : β → γ → Prop} {T : α → γ → Prop}
    (hall : ∀ a b c, R a b → S b c → T a c) {as : List α} {bs : List β} {cs : List γ}
    (h : List.Forall₂ R as bs) (h' : List.Forall₂ S bs cs) : List.Forall₂ T as cs := by
  induction h generalizing cs with
  | nil =>
    cases h'
    exact .nil
  | cons hhead _ ih =>
    cases h' with
    | cons hhead' hrest => exact .cons (hall _ _ _ hhead hhead') (ih hrest)

/-- The rows of the selected inputs are found again by their ids. -/
theorem allocated_rows {call : FundingCall} {g : GenerateChangeSdkResult}
    (hrows : ∀ o ∈ call.available ++ call.noSend, ∀ o' ∈ call.available ++ call.noSend,
      o.outputId = o'.outputId → o = o') (hg : call.generate = .ok g) :
    List.Forall₂ (fun a o => inputOf (toAvailable o) = a)
      g.allocatedChangeInputs (g.allocatedChangeInputs.filterMap fun a =>
        (call.available ++ call.noSend).find? (·.outputId == a.outputId)) := by
  have hpool : ∀ a ∈ g.allocatedChangeInputs, ∃ o ∈ call.available ++ call.noSend,
      inputOf (toAvailable o) = a := by
    intro a ha
    rw [(generate_paid_iff hg).1] at ha
    obtain ⟨c, hc, rfl⟩ := mem_withNoSendChange (selectChange_from.allocated a ha)
    rw [← List.map_append] at hc
    obtain ⟨o, ho, rfl⟩ := List.mem_map.mp hc
    exact ⟨o, ho, rfl⟩
  generalize g.allocatedChangeInputs = allocated at hpool
  induction allocated with
  | nil => exact .nil
  | cons a rest ih =>
    obtain ⟨o, ho, rfl⟩ := hpool a List.mem_cons_self
    have hfound : (call.available ++ call.noSend).find?
        (·.outputId == (inputOf (toAvailable o)).outputId) = some o := by
      cases hfind : (call.available ++ call.noSend).find?
          (·.outputId == (inputOf (toAvailable o)).outputId) with
      | none => exact absurd (List.find?_eq_none.mp hfind o ho) (by simp [inputOf, toAvailable])
      | some o' =>
        have hid : o'.outputId = o.outputId := beq_iff_eq.mp (List.find?_some hfind :)
        rw [hrows o' (List.mem_of_find?_eq_some hfind) o ho hid]
    rw [List.filterMap_cons, hfound]
    exact .cons rfl (ih fun b hb => hpool b (List.mem_cons_of_mem _ hb))

/-- What follows the call of change generation. -/
theorem planAction_plan {entropy : Entropy} {args : StorageCreateActionArgs} {basket : OutputBasket}
    {now : Nat} {r : StorageCreateActionResult} (hempty : ownCoins id s = [])
    (h : (planAction sdk entropy userId args basket now id).run Stmt.exec s = (.ok r, s')) :
    ∃ call s₀ g, (do
        forM args.labels (addActionLabel now userId id)
        let beef ← Prog.ofExcept (parseInputBeef sdk args.inputBeef)
        let planned ← args.inputs.zipIdx.foldlM (planInput beef userId id) {}
        let available ← find (availableChangeOutputs userId basket.basketId args.isDelayed)
        let noSend ← noSendChangeRows args userId basket.basketId
        pure { args := changeArgs args basket planned.fixedInputs available.length, noSend, available }
        : StorageProg FundingCall).run Stmt.exec s = (.ok call, s₀) ∧
      call.generate = .ok g ∧ PlanOf args call g r := by
  have hmarks : ∀ ids, KeepsCoins (.markInputsSpent ids id userId) := fun _ => trivial
  have hlabel : (forM args.labels (addActionLabel now userId id)).Emits KeepsCoins :=
    Emits.forM fun label _ => emits_addActionLabel (fun l => by simp [KeepsCoins, Stmt.target])
      fun m => by simp [KeepsCoins, Stmt.target]
  unfold planAction at h
  obtain ⟨_, s₁, hlabels, h⟩ := run_bind_ok h
  obtain ⟨beef, sb, hbeef, h⟩ := run_bind_ok h
  obtain ⟨planned, s₂, hplanned, h⟩ := run_bind_ok h
  obtain ⟨funding, s₃, hfunding, h⟩ := run_bind_ok h
  obtain ⟨pending, s₄, hpending, h⟩ := run_bind_ok h
  obtain ⟨inputs, s₅, hinputs, h⟩ := run_bind_ok h
  obtain ⟨_, s₆, -, h⟩ := run_bind_ok h
  obtain rfl := Except.ok.inj (Prod.mk.inj h).1
  -- the funding: the rows that were read, and what change generation made of them
  have hfund := hfunding
  unfold fundAction at hfund
  obtain ⟨available, sa, havailable, hfund⟩ := run_bind_ok hfund
  obtain ⟨noSend, sn, hnoSend, hfund⟩ := run_bind_ok hfund
  obtain ⟨g, sg, hg, hfund⟩ := run_bind_ok hfund
  obtain ⟨_, sc, -, hfund⟩ := run_bind_ok hfund
  obtain rfl := Except.ok.inj (Prod.mk.inj hfund).1
  rw [run_ofExcept] at hg
  obtain ⟨hgenerate, -⟩ := Prod.mk.inj hg
  obtain ⟨havail, rfl⟩ := Prod.mk.inj havailable
  obtain rfl := Except.ok.inj havail
  obtain ⟨hsn, hmem⟩ := wp_ok wp_noSendChangeRows hnoSend
  have hempty₁ := wp_ok (wp_keepsCoins hlabel hempty) hlabels
  have hempty₂ : ownCoins id s₂ = [] := by
    rw [run_ofExcept] at hbeef
    obtain ⟨-, rfl⟩ := Prod.mk.inj hbeef
    have hemits : (args.inputs.zipIdx.foldlM (planInput beef userId id) {}).Emits KeepsCoins :=
      Emits.foldlM fun _ _ _ => emits_planInput hmarks
    have hkept := wp_ok (wp_keepsCoins hemits hempty₁) hplanned
    exact hkept
  have hempty₃ := wp_ok (wp_keepsCoins (emits_fundAction hmarks) hempty₂) hfunding
  obtain ⟨hplan, hrecords, -, -, hordered⟩ := wp_ok (wp_storeOutputs_planned hempty₃) hpending
  let call : FundingCall :=
    { args := changeArgs args basket planned.fixedInputs
        (availableChangeOutputs userId basket.basketId args.isDelayed s₂).length
      noSend, available := availableChangeOutputs userId basket.basketId args.isDelayed s₂ }
  have hstored : ∀ o ∈ call.available ++ call.noSend, o ∈ s₂.outputs := by
    intro o ho
    rcases List.mem_append.mp ho with havailable | hns
    · exact (Table.mem_find.mp ((List.perm_insertionSort _ _).mem_iff.mp havailable)).1
    · exact hmem o hns
  have hrows : ∀ o ∈ call.available ++ call.noSend, ∀ o' ∈ call.available ++ call.noSend,
      o.outputId = o'.outputId → o = o' :=
    fun o ho o' ho' hid => Table.eq_of_key_eq (hstored o ho) (hstored o' ho') hid
  have hcall : call.generate = .ok g := hgenerate
  refine ⟨call, sn, g, ?_, hcall, ⟨basket, planned.fixedInputs, _, rfl⟩, ?_, hrecords, ?_⟩
  · rw [run_bind_of_ok hlabels, run_bind_of_ok hbeef, run_bind_of_ok hplanned,
      run_bind_of_ok (run_ask _ _), run_bind_of_ok hnoSend]
    rfl
  · obtain ⟨caller, hcaller, hfixed⟩ := wp_ok wp_planInputs_records hplanned
    rw [List.nil_append] at hcaller hfixed
    obtain ⟨change, hchange, hchangeRecords⟩ := wp_ok wp_addChangeInputs_records hinputs
    refine ⟨caller, change, ?_, hfixed.symm, ?_⟩
    · rw [hchange, hcaller]
    · exact forall₂_chain (fun _ o _ hof hrecord => ⟨o, hof, hrecord⟩) (allocated_rows hrows hcall)
        hchangeRecords
  · intro hfalse
    rw [List.map_map, List.length_map]
    have hsame : pending.map ((·.vout) ∘ (·.record)) = pending.map (·.row.vout) :=
      List.map_congr_left fun p hp => hplan.sameVout p hp
    rw [hsame]
    exact hordered hfalse

/-- A storageCreateAction that succeeds has called change generation, made its plan from the answer
and stored it. -/
theorem storageCreateAction_plan {entropy : Entropy} {args : StorageCreateActionArgs}
    {r : StorageCreateActionResult}
    (h : (storageCreateAction sdk entropy userId args).run Stmt.exec s = (.ok r, s')) :
    ∃ call s₀ g id, (storageFundingCall sdk entropy userId args).run Stmt.exec s = (.ok call, s₀) ∧
      call.generate = .ok g ∧ PlanOf args call g r ∧
      (∃ t ∈ s'.transactions, NewAction userId id r.reference t) ∧
      ∃ pending, r.outputs = pending.map (·.record) ∧ (∀ p ∈ pending, Paired p) ∧
        Stored pending (outputRows id s') := by
  obtain ⟨basket, id, s₁, hbasket, hinsert, hplan⟩ := storageCreateAction_ok h
  have hempty := ownCoins_new hinsert
  obtain ⟨call, s₀, g, hcall, hg, hof⟩ := planAction_plan hempty hplan
  obtain ⟨inputRecords, funding, s₂, hnew, hrecords⟩ := planAction_records hempty hplan
  obtain ⟨pending, houtputs, hpaired, hstored, -⟩ :=
    wp_ok (wp_recordAction (outputRows_eq_nil.mpr hnew)) hrecords
  obtain ⟨hreports, href⟩ := wp_ok (wp_planAction ⟨created_insertTransaction hinsert, by simp⟩) hplan
  refine ⟨call, s₀, g, id, ?_, hg, hof, href ▸ hreports.created.added, pending, houtputs, hpaired,
    hstored⟩
  have hnow : utcNow.run Stmt.exec s = (.ok s.now, s) := run_ask _ _
  have hread : (find fun s => s.outputBaskets.find fun b => b.userId == userId &&
      b.name == "default").run Stmt.exec s =
        (.ok (s.outputBaskets.find fun b => b.userId == userId && b.name == "default"), s) :=
    run_ask _ _
  have hverified : (Prog.ofExcept (verifyOne (s.outputBaskets.find fun b => b.userId == userId &&
      b.name == "default")) : StorageProg OutputBasket).run Stmt.exec s = (.ok basket, s) := by
    rw [run_ofExcept, hbasket]
  unfold storageFundingCall
  rw [run_bind_of_ok hnow, run_bind_of_ok hread, run_bind_of_ok hverified,
    run_bind_of_ok (run_exec_ok hinsert)]
  exact hcall

/-- A createAction that succeeds has called change generation and made its plan from the answer. -/
theorem createAction_plan {entropy : Entropy} {auth : String} {args : StorageCreateActionArgs}
    {r : StorageCreateActionResult}
    (h : (createAction sdk entropy auth args).run Stmt.exec s = (.ok r, s')) :
    ∃ call s₀ g, (fundingCall sdk entropy auth args).run Stmt.exec s = (.ok call, s₀) ∧
      call.generate = .ok g ∧ PlanOf args call g r := by
  unfold createAction at h
  obtain ⟨⟨user, isNew⟩, s₁, huser, h⟩ := run_bind_ok h
  change (storageCreateAction sdk entropy user.userId args).run Stmt.exec s₁ = _ at h
  obtain ⟨call, s₀, g, -, hcall, hg, hplan, -⟩ := storageCreateAction_plan h
  refine ⟨call, s₀, g, ?_, hg, hplan⟩
  rw [fundingCall_eq, run_bind_of_ok huser]
  exact hcall

end Inputs

/-! ## What a plan adds up to -/

/-- The size of the locking script that an output gets. -/
def outputLength (r : StorageCreateTransactionSdkOutput) : Nat :=
  if isChange r then 25 else (hexToBytes r.lockingScript).length

section Amounts

variable {args : StorageCreateActionArgs} {call : FundingCall} {g : GenerateChangeSdkResult}
  {r : StorageCreateActionResult}

/-- The inputs have the amounts of the call and of the selection. -/
theorem PlanOf.inputAmounts (h : PlanOf args call g r) :
    r.inputs.map (·.sourceSatoshis) =
      call.args.fixedInputs.map (·.satoshis) ++ g.allocatedChangeInputs.map (·.satoshis) := by
  obtain ⟨caller, change, hinputs, hcaller, hchange⟩ := h.inputs
  have hamounts : change.map (·.sourceSatoshis) = g.allocatedChangeInputs.map (·.satoshis) := by
    refine map_eq_of_forall₂ (fun a c => ?_) hchange
    rintro ⟨o, rfl, hof⟩
    exact hof.satoshis
  rw [hinputs, List.map_append, hamounts, ← hcaller, List.map_map]
  rfl

/-- The outputs have the amounts of the call and of the change. -/
theorem PlanOf.outputAmounts (h : PlanOf args call g r) :
    r.outputs.map (·.satoshis) = call.args.fixedOutputs.map (·.satoshis) ++ g.changeOutputs := by
  obtain ⟨basket, fixedInputs, available, harguments⟩ := h.arguments
  rw [h.outputs.satoshis, harguments]
  simp only [changeArgs, List.map_map]
  rfl

/-- The size of the transaction that the result describes. -/
theorem PlanOf.size (h : PlanOf args call g r) :
    transactionSize (r.inputs.map (·.unlockingScriptLength)) (r.outputs.map outputLength) =
      computeSize call.args g.allocatedChangeInputs.length g.changeOutputs.length 0 0 := by
  obtain ⟨basket, fixedInputs, available, harguments⟩ := h.arguments
  obtain ⟨caller, changeInputs, hinputs, hcaller, hallocated⟩ := h.inputs
  obtain ⟨asked, change, houtputs, hasked, hchange⟩ := h.outputs
  have hcallerSizes : caller.map (·.unlockingScriptLength) =
      call.args.fixedInputs.map (·.unlockingScriptLength) := by
    rw [← hcaller, List.map_map]
    rfl
  have hinputSizes : changeInputs.map (·.unlockingScriptLength) =
      List.replicate g.allocatedChangeInputs.length 107 := by
    rw [← List.map_const']
    refine map_eq_of_forall₂ (fun a c => ?_) hallocated
    rintro ⟨o, -, hof⟩
    exact hof.length
  have haskedSizes : asked.map outputLength =
      args.outputs.map fun o => (hexToBytes o.lockingScript).length := by
    refine map_eq_of_forall₂ (fun spec record hof => ?_) hasked
    rw [outputLength, if_neg (by simp [isChange, hof.providedBy]), hof.lockingScript]
  have hchangeSizes : change.map outputLength = List.replicate g.changeOutputs.length 25 := by
    rw [← List.map_const']
    refine map_eq_of_forall₂ (fun satoshis record hof => ?_) hchange
    rw [outputLength, if_pos (by simp [isChange, hof.providedBy, hof.purpose])]
  rw [hinputs, houtputs, List.map_append, List.map_append, hcallerSizes, hinputSizes, haskedSizes,
    hchangeSizes, harguments]
  simp only [computeSize, changeArgs, List.map_map]
  rfl

end Amounts

/-- What change generation may take. -/
def FundingCall.pool (call : FundingCall) : List AvailableChange :=
  call.noSend.map toAvailable ++ call.available.map toAvailable

/-- The fee for the transaction with the inputs and outputs of a result: its size times the rate, per
thousand bytes and rounded up. -/
def actionFeeNat (r : StorageCreateActionResult) : Nat :=
  (transactionSize (r.inputs.map (·.unlockingScriptLength)) (r.outputs.map outputLength) * 100 + 999) /
    1000

/-- The inputs come to the outputs and the fee, and the rows carry what the outputs say. -/
structure ConservesValue (r : StorageCreateActionResult) (rows : List Output) : Prop where
  balance : sumNat (r.inputs.map (·.sourceSatoshis)) =
    sumNat (r.outputs.map (·.satoshis)) + actionFeeNat r
  rows : rows.map (·.satoshis) = r.outputs.map fun record => (record.satoshis.toNat : Int)

section Calls

variable {sdk : Sdk} {entropy : Entropy} {userId : Nat} {args : StorageCreateActionArgs} {s s' : Store}
  {r : StorageCreateActionResult} {call : FundingCall} {g : GenerateChangeSdkResult}

theorem rows_amounts {pending : List PendingOutput} {rows : List Output}
    (hpaired : ∀ p ∈ pending, Paired p) (hstored : Stored pending rows)
    (hsmall : ∀ p ∈ pending, p.record.satoshis.toNat < 9223372036854775808) :
    rows.map (·.satoshis) =
      (pending.map (·.record)).map fun record => (record.satoshis.toNat : Int) :=
  map_eq_of_forall₂ (fun _ _ h => h.satoshis) ((matches_iff hpaired hstored).mpr hsmall)

/-- The inputs of a plan are no more than there is to take. -/
theorem PlanOf.inputs_le (h : PlanOf args call g r) (hg : call.generate = .ok g) :
    sumNat (r.inputs.map (·.sourceSatoshis)) ≤ fundingNat call.args call.pool := by
  have hwithin := @selected_within call.args (call.noSend.map toAvailable)
    (call.available.map toAvailable)
  have hsum := hwithin.allocated_sum.1
  rw [← (generate_paid_iff hg).1] at hsum
  rw [h.inputAmounts, sumNat_append, fundingNat]
  exact Nat.add_le_add_left hsum _

theorem PlanOf.feeNat (h : PlanOf args call g r) :
    actionFeeNat r = Storage.feeNat call.args g.allocatedChangeInputs.length g.changeOutputs.length := by
  obtain ⟨basket, fixedInputs, available, harguments⟩ := h.arguments
  rw [actionFeeNat, h.size, Storage.feeNat, harguments]
  rfl

theorem PlanOf.asked (h : PlanOf args call g r) :
    call.args.fixedOutputs.map (·.satoshis) = args.outputs.map (·.satoshis) := by
  obtain ⟨basket, fixedInputs, available, harguments⟩ := h.arguments
  rw [harguments]
  simp only [changeArgs, List.map_map]
  rfl

/-- A plan for amounts that are all given balances. -/
theorem PlanOf.balance (h : PlanOf args call g r) (hg : call.generate = .ok g)
    (hfits : Fits call.args call.pool)
    (hmem : maxPossibleSatoshis ∉ args.outputs.map (·.satoshis)) :
    sumNat (r.inputs.map (·.sourceSatoshis)) =
      sumNat (r.outputs.map (·.satoshis)) + actionFeeNat r := by
  rw [← h.asked] at hmem
  obtain ⟨hconserves, hnone⟩ := generate_conserves hfits hmem hg
  have hbalance := hconserves.balance
  unfold paidInputs paidOutputs at hbalance
  rw [hnone, hconserves.fee] at hbalance
  rw [h.inputAmounts, h.outputAmounts, sumNat_append, sumNat_append, h.feeNat, hbalance]

/-- While the amounts fit and the funding is below the supply of coins, createAction conserves value
exactly when no output asks for everything. -/
theorem value_conserved_iff (sdk : Sdk) (entropy : Entropy) (userId : Nat)
    (args : StorageCreateActionArgs) (s s₀ s' : Store) (call : FundingCall)
    (r : StorageCreateActionResult) (action : Transaction)
    (hcall : (storageFundingCall sdk entropy userId args).run Stmt.exec s = (.ok call, s₀))
    (hfits : Fits call.args call.pool)
    (hsupply : maxPossibleSatoshis ∈ args.outputs.map (·.satoshis) →
      fundingNat call.args call.pool < maxPossibleSatoshis.toNat)
    (h : (storageCreateAction sdk entropy userId args).run Stmt.exec s = (.ok r, s'))
    (haction : action ∈ s'.transactions) (href : action.reference = r.reference) :
    ConservesValue r (outputRows action.transactionId s') ↔
      maxPossibleSatoshis ∉ args.outputs.map (·.satoshis) := by
  obtain ⟨call', s₁, g, id, hcall', hg, hplan, ⟨t, ht, hnew⟩, pending, houtputs, hpaired, hstored⟩ :=
    storageCreateAction_plan h
  obtain rfl : call' = call := Except.ok.inj (Prod.mk.inj (hcall'.symm.trans hcall)).1
  obtain rfl : t = action := s'.unique.transactions.eq ht haction (hnew.reference.trans href.symm)
  have hle := hplan.inputs_le hg
  constructor
  · intro hconserves hmem
    have hmost : maxPossibleSatoshis ∈ r.outputs.map (·.satoshis) := by
      rw [hplan.outputAmounts, hplan.asked]
      exact List.mem_append_left _ hmem
    have hpaid := le_sumNat hmost
    have hfew := hsupply hmem
    have hbalance := hconserves.balance
    omega
  · intro hmem
    have hbalance := hplan.balance hg hfits hmem
    refine ⟨hbalance, ?_⟩
    rw [hnew.transactionId, houtputs]
    refine rows_amounts hpaired hstored fun p hp => ?_
    have hmost : p.record.satoshis ∈ r.outputs.map (·.satoshis) := by
      rw [houtputs]
      exact List.mem_map_of_mem (List.mem_map_of_mem hp)
    have hpaid := le_sumNat hmost
    have hlimit := hfits.funding
    omega

end Calls

/-- What the payer's call asks of change generation. -/
def payerCall (args : StorageCreateActionArgs) : Except WalletError FundingCall × Store :=
  (storageFundingCall Sample.sdk Sample.entropy 1 args).run Stmt.exec Sample.payer.store

theorem payerCall_amounts :
    (payerCall paymentRequest).1.toOption.map (fun call => (fundingNat call.args call.pool,
      computeSize call.args call.pool.length (mostOutputs call.args call.pool) 0 0 *
        call.args.feeModel.value.toNat,
      sumNat (call.args.fixedOutputs.map (·.satoshis)) +
        mostOutputs call.args call.pool * mostChange call.args +
        feeNat call.args call.pool.length (mostOutputs call.args call.pool))) =
      some (1000, 26000, 528) := by
  decide +kernel

/-- The payer's 1000 are the payment of 500, the change of 477 and the fee of 23. -/
theorem value_conserved_payment :
    ∃ r s' action, payerPlans paymentRequest = (.ok r, s') ∧ action ∈ s'.transactions ∧
      r.outputs.map (·.satoshis) = [500, 477] ∧
      ConservesValue r (outputRows action.transactionId s') := by
  obtain ⟨r, hok, hamounts⟩ := ran_ok payerPlans_payment
  obtain ⟨call, hcall, hsums⟩ := ran_ok payerCall_amounts
  obtain ⟨hfunding, hsize, hspending⟩ : _ ∧ _ ∧ _ := by simpa only [Prod.mk.injEq] using hsums
  obtain ⟨-, -, -, id, -, -, -, ⟨action, haction, hnew⟩, -⟩ := storageCreateAction_plan hok
  have hfits : Fits call.args call.pool :=
    ⟨by rw [hfunding]; decide, by rw [hsize]; decide, by rw [hspending]; decide⟩
  have hgiven : maxPossibleSatoshis ∉ paymentRequest.outputs.map (·.satoshis) := by decide
  exact ⟨r, _, action, hok, haction, hamounts, (value_conserved_iff Sample.sdk Sample.entropy 1
    paymentRequest Sample.payer.store _ _ call r action hcall hfits (fun h => absurd h hgiven) hok
    haction hnew.reference).mpr hgiven⟩

/-- One output that asks for everything. -/
def everythingRequest : StorageCreateActionArgs :=
  { description := "everything", inputs := []
    outputs := [{ lockingScript := "", satoshis := maxPossibleSatoshis, outputDescription := "" }] }

theorem payerPlans_everything :
    (payerPlans everythingRequest).1.toOption.map
      (fun r => (r.inputs.map (·.sourceSatoshis), r.outputs.map (·.satoshis))) =
        some ([1000], [2099999999999999]) := by
  decide +kernel

/-- Then the plan pays all the coins there are out of 1000 satoshis. -/
theorem value_not_conserved :
    ∃ r s', payerPlans everythingRequest = (.ok r, s') ∧ ∀ rows, ¬ConservesValue r rows := by
  obtain ⟨r, hok, hamounts⟩ := ran_ok payerPlans_everything
  obtain ⟨hinputs, houtputs⟩ := Prod.mk.inj hamounts
  refine ⟨r, _, hok, fun rows h => ?_⟩
  have hbalance := h.balance
  rw [hinputs, houtputs] at hbalance
  have hsums : sumNat [1000] = 1000 ∧ sumNat [2099999999999999] = 2099999999999999 := by decide
  omega

end WalletToolbox.Storage
