import WalletToolbox.Laws.NoSendChange

/-! # The outputs of a plan

The last part of createAction takes a list of change amounts and builds the outputs: first those of
the caller, then the change.
Shuffling moves the vouts only, so a record keeps its place in the result and its row. -/

namespace WalletToolbox.Storage

open WalletToolbox.Lib WalletToolbox.Signer
open WalletToolbox.Lib.Prog hiding pure exec

/-! ## The last part of do_create_action -/

/-- What is done once the funding is claimed. -/
def recordAction (sdk : Sdk) (entropy : Entropy) (userId : Nat) (args : StorageCreateActionArgs)
    (basketId now transactionId : Nat) (inputRecords : List StorageCreateTransactionSdkInput)
    (funding : Funding) : StorageProg StorageCreateActionResult := do
  let pending ← storeOutputs args entropy now userId transactionId basketId funding.changeOutputs
  let inputs ← funding.allocated.foldlM (addChangeInput sdk) inputRecords
  exec' (.updateTransaction transactionId { isOutgoing := some true })
  pure
    { reference := entropy.reference, version := args.version, lockTime := args.lockTime, inputs
      outputs := pending.map (·.record), derivationPrefix := entropy.derivationPrefix
      inputBeef := args.inputBeef
      noSendChangeOutputVouts :=
        if args.isNoSend then some ((pending.filter (·.isChange)).map (·.record.vout)) else none }

theorem planAction_eq (sdk : Sdk) (entropy : Entropy) (userId : Nat) (args : StorageCreateActionArgs)
    (basket : OutputBasket) (now transactionId : Nat) :
    planAction sdk entropy userId args basket now transactionId = (do
      forM args.labels (addActionLabel now userId transactionId)
      let beef ← Prog.ofExcept (parseInputBeef sdk args.inputBeef)
      let planned ← args.inputs.zipIdx.foldlM (planInput beef userId transactionId) {}
      let funding ← fundAction args basket userId transactionId planned.fixedInputs
      recordAction sdk entropy userId args basket.basketId now transactionId planned.inputRecords
        funding) :=
  rfl

/-! ## Rows and records -/

/-- The outputs of a transaction, in the order in which they were stored. -/
def outputRows (id : Nat) (s : Store) : List Output :=
  s.outputs.find (·.transactionId == id)

/-- A row tells what its record tells. -/
structure Matches (record : StorageCreateTransactionSdkOutput) (o : Output) : Prop where
  vout : o.vout = record.vout
  satoshis : o.satoshis = record.satoshis.toNat
  script : o.lockingScript.getD [] = hexToBytes record.lockingScript

/-- The outputs of a result correspond to the request, to the change and to the rows. -/
structure Corresponds (args : StorageCreateActionArgs) (changeOutputs : List UInt64)
    (r : StorageCreateActionResult) (rows : List Output) : Prop where
  vouts : (r.outputs.map (·.vout)).Perm (List.range r.outputs.length)
  order : Records args.outputs changeOutputs r.outputs
  rows : List.Forall₂ Matches r.outputs rows
  noSendChange : r.noSendChangeOutputVouts =
    if args.isNoSend then
      some ((r.outputs.filter (·.purpose == some "change")).map (·.vout))
    else none

/-- An output is built as a row and a record at once; the row has the amount as a signed word. -/
structure Paired (p : PendingOutput) : Prop where
  vout : p.row.vout = p.record.vout
  satoshis : p.row.satoshis = asI64 p.record.satoshis.toNat
  script : p.row.lockingScript.getD [] = hexToBytes p.record.lockingScript
  isChange : p.isChange = (p.record.purpose == some "change")

theorem Paired.withVout {p : PendingOutput} (h : Paired p) (vout : Nat) : Paired (p.withVout vout) :=
  ⟨rfl, h.satoshis, h.script, h.isChange⟩

theorem paired_change {now userId id basketId vout : Nat} {entropy : Entropy} {satoshis : UInt64} :
    Paired (pendingChange now userId id basketId entropy vout satoshis) :=
  ⟨rfl, rfl, rfl, rfl⟩

theorem paired_assign {args : StorageCreateActionArgs} {entropy : Entropy}
    {pending assigned : List PendingOutput} (hpaired : ∀ p ∈ pending, Paired p)
    (h : assignVouts args entropy pending = .ok assigned) : ∀ p ∈ assigned, Paired p := by
  rcases assignVouts_cases h with rfl | ⟨vouts, -, rfl⟩
  · exact hpaired
  · intro p hp
    obtain ⟨q, hq, v, rfl⟩ := mem_withVouts hp
    exact (hpaired q hq).withVout v

section Stored

variable {sdk : Sdk} {s s' : Store} {userId id basketId now : Nat}

theorem wp_pendingCallers_paired {specs : List StorageCreateActionOutput} :
    wp Stmt.exec (specs.foldlM (pendingCaller now userId id) []) (fun all _ => ∀ p ∈ all, Paired p)
      (fun _ => True) s := by
  refine wp_foldlM (I := fun (all : List PendingOutput) _ => ∀ p ∈ all, Paired p)
    (fun spec _ pending s₁ h => ?_) (by simp)
  unfold pendingCaller
  rw [wp_bind]
  refine wp_mono wp_trivial (fun basketId s₂ _ p hp => ?_) fun _ h => h
  rcases List.mem_append.mp hp with hold | hnew
  · exact h p hold
  · rw [List.mem_singleton.mp hnew]
    exact ⟨rfl, rfl, rfl, rfl⟩

/-- The rows of a plan are those of its outputs, but for their keys. -/
def Stored (pending : List PendingOutput) (rows : List Output) : Prop :=
  List.Forall₂ (fun p o => ∃ n, o = p.row.stored n) pending rows

theorem wp_insertOutputs_rows {pending : List PendingOutput}
    (hown : ∀ p ∈ pending, p.row.transactionId = id) :
    wp Stmt.exec (forM pending fun p => exec' (.insertOutput p.row))
      (fun _ s' => ∃ rows, outputRows id s' = outputRows id s ++ rows ∧ Stored pending rows)
      (fun _ => True) s := by
  induction pending generalizing s with
  | nil => exact ⟨[], (List.append_nil _).symm, .nil⟩
  | cons p pending ih =>
    rw [List.forM_cons, wp_bind]
    refine wp_exec' (fun n s₁ hexec => ?_) fun _ _ => trivial
    have hstored : outputRows id s₁ =
        outputRows id s ++ [p.row.stored (s.outputs.lastId + 1)] := by
      unfold outputRows
      rw [(exec_eq hexec).2]
      simp only [Stmt.apply]
      refine Table.find_insert.trans ?_
      exact congrArg _ (if_pos (beq_iff_eq.mpr (hown p List.mem_cons_self)))
    refine wp_mono (ih fun q hq => hown q (List.mem_cons_of_mem _ hq)) ?_ fun _ h => h
    rintro _ s₂ ⟨rows, hrows, hall⟩
    refine ⟨p.row.stored (s.outputs.lastId + 1) :: rows, ?_, .cons ⟨_, rfl⟩ hall⟩
    rw [hrows, hstored, List.append_assoc, List.singleton_append]

theorem outputRows_eq_nil : outputRows id s = [] ↔ ∀ o ∈ s.outputs, o.transactionId ≠ id := by
  unfold outputRows
  rw [Table.find_eq_nil]
  simp

theorem ownCoins_eq_nil : ownCoins id s = [] ↔ outputRows id s = [] :=
  List.map_eq_nil_iff

theorem wp_storeOutputs_rows {args : StorageCreateActionArgs} {entropy : Entropy}
    {changeOutputs : List UInt64} (h : outputRows id s = []) :
    wp Stmt.exec (storeOutputs args entropy now userId id basketId changeOutputs)
      (fun pending s' => (∀ p ∈ pending, Paired p) ∧ Stored pending (outputRows id s'))
      (fun _ => True) s := by
  unfold storeOutputs
  rw [wp_bind]
  refine wp_mono (wp_and (wp_pendingCallers_numbered basketId (ownCoins_eq_nil.mpr h))
    wp_pendingCallers_paired) ?_ fun _ _ => trivial
  rintro caller s₁ ⟨⟨hempty, hnumbered⟩, hpaired⟩
  rw [wp_bind]
  refine wp_ofExcept (fun pending hpending => ?_) fun _ _ => trivial
  have hplanned := assignVouts_planned (hnumbered.withChange changeOutputs) hpending
  have hall : ∀ p ∈ pending, Paired p := by
    refine paired_assign (fun p hp => ?_) hpending
    rcases List.mem_append.mp hp with hold | hnew
    · exact hpaired p hold
    · obtain ⟨⟨satoshis, i⟩, -, rfl⟩ := List.mem_map.mp hnew
      exact paired_change
  rw [wp_bind]
  refine wp_mono (wp_insertOutputs_rows hplanned.own) ?_ fun _ h => h
  rintro _ s₂ ⟨rows, hrows, hstored⟩
  rw [ownCoins_eq_nil.mp hempty, List.nil_append] at hrows
  exact ⟨hall, hrows ▸ hstored⟩

theorem wp_keepsOutputRows {α : Type} {p : StorageProg α} {rows : List Output}
    (hp : p.Emits fun w => w.target ≠ .outputs) (h : outputRows id s = rows) :
    wp Stmt.exec p (fun _ s' => outputRows id s' = rows) (fun _ => True) s := by
  have hstep : ∀ (w : Stmt) (s : Store) (n : Nat) (s' : Store), w.target ≠ .outputs →
      outputRows id s = rows → w.exec s = .ok (n, s') → outputRows id s' = rows := by
    intro w s n s' hw h hexec
    unfold outputRows at h ⊢
    rw [exec_outputs hexec hw, h]
  exact wp_mono (hp.wp hstep h) (fun _ _ h => h) fun _ _ => trivial

/-- What the last part of createAction leaves. -/
theorem wp_recordAction {args : StorageCreateActionArgs} {entropy : Entropy}
    {inputRecords : List StorageCreateTransactionSdkInput} {funding : Funding}
    (h : outputRows id s = []) :
    wp Stmt.exec (recordAction sdk entropy userId args basketId now id inputRecords funding)
      (fun r s' => ∃ pending, r.outputs = pending.map (·.record) ∧ (∀ p ∈ pending, Paired p) ∧
        Stored pending (outputRows id s') ∧ Records args.outputs funding.changeOutputs r.outputs ∧
        (pending.map (·.row.vout)).Perm (List.range pending.length) ∧
        r.noSendChangeOutputVouts =
          if args.isNoSend then some ((pending.filter (·.isChange)).map (·.record.vout)) else none)
      (fun _ => True) s := by
  unfold recordAction
  rw [wp_bind]
  refine wp_mono (wp_and (wp_storeOutputs_planned (ownCoins_eq_nil.mpr h)) (wp_storeOutputs_rows h))
    ?_ fun _ _ => trivial
  rintro pending s₁ ⟨⟨-, hrecords, hvouts, -⟩, hpaired, hstored⟩
  rw [wp_bind]
  have hsame : outputRows id s₁ = outputRows id s₁ := rfl
  refine wp_mono (wp_keepsOutputRows emits_addChangeInputs hsame) (fun inputs s₂ h₂ => ?_)
    fun _ h => h
  rw [wp_bind]
  refine wp_exec' (fun n s₃ hexec => ?_) fun _ _ => trivial
  have h₃ : outputRows id s₃ = outputRows id s₁ := by
    unfold outputRows at h₂ ⊢
    rw [exec_outputs hexec nofun, h₂]
  exact ⟨pending, rfl, hpaired, h₃ ▸ hstored, hrecords, hvouts, rfl⟩

end Stored

/-! ## Every createAction ends so -/

section Calls

variable {sdk : Sdk} {entropy : Entropy} {userId : Nat} {args : StorageCreateActionArgs} {s s' : Store}
  {r : StorageCreateActionResult}

/-- What a storageCreateAction that succeeds has done: the new transaction, then its plan. -/
theorem storageCreateAction_ok
    (h : (storageCreateAction sdk entropy userId args).run Stmt.exec s = (.ok r, s')) :
    ∃ basket id s₁, verifyOne (s.outputBaskets.find fun b => b.userId == userId &&
        b.name == "default") = .ok basket ∧
      (Stmt.insertTransaction (newTransaction s.now userId args entropy.reference)).exec s =
        .ok (id, s₁) ∧
      (planAction sdk entropy userId args basket s.now id).run Stmt.exec s₁ = (.ok r, s') := by
  unfold storageCreateAction at h
  obtain ⟨now, s₁, hnow, h⟩ := run_bind_ok h
  obtain ⟨rows, s₂, hrows, h⟩ := run_bind_ok h
  obtain ⟨basket, s₃, hbasket, h⟩ := run_bind_ok h
  obtain ⟨hvalue, rfl⟩ := Prod.mk.inj hnow
  obtain rfl := Except.ok.inj hvalue
  obtain ⟨hread, rfl⟩ := Prod.mk.inj hrows
  obtain rfl := Except.ok.inj hread
  rw [run_ofExcept] at hbasket
  obtain ⟨hverified, rfl⟩ := Prod.mk.inj hbasket
  rw [run_atomically_ok] at h
  unfold doCreateAction at h
  obtain ⟨id, s₄, hinsert, h⟩ := run_bind_ok h
  have hexec := wp_ok (wp_exec (Q := fun n s' => (Stmt.insertTransaction
    (newTransaction s.now userId args entropy.reference)).exec s = .ok (n, s')) (E := fun _ => True)
    (fun _ _ h => h) fun _ _ => trivial) hinsert
  exact ⟨basket, id, s₄, hverified, hexec, h⟩

theorem planAction_records {basket : OutputBasket} {now id : Nat} (hempty : ownCoins id s = [])
    (h : (planAction sdk entropy userId args basket now id).run Stmt.exec s = (.ok r, s')) :
    ∃ inputRecords funding s₁, (∀ o ∈ s₁.outputs, o.transactionId ≠ id) ∧
      (recordAction sdk entropy userId args basket.basketId now id inputRecords funding).run Stmt.exec
        s₁ = (.ok r, s') := by
  have hmarks : ∀ ids, KeepsCoins (.markInputsSpent ids id userId) := fun _ => trivial
  have hlabel : (forM args.labels (addActionLabel now userId id)).Emits KeepsCoins :=
    Emits.forM fun label _ => emits_addActionLabel (fun l => by simp [KeepsCoins, Stmt.target])
      fun m => by simp [KeepsCoins, Stmt.target]
  rw [planAction_eq] at h
  obtain ⟨_, s₁, hlabels, h⟩ := run_bind_ok h
  obtain ⟨beef, sb, hbeef, h⟩ := run_bind_ok h
  rw [run_ofExcept] at hbeef
  obtain ⟨-, rfl⟩ := Prod.mk.inj hbeef
  obtain ⟨planned, s₂, hplanned, h⟩ := run_bind_ok h
  obtain ⟨funding, s₃, hfunding, h⟩ := run_bind_ok h
  have hinputs : (args.inputs.zipIdx.foldlM (planInput beef userId id) {}).Emits KeepsCoins :=
    Emits.foldlM fun _ _ _ => emits_planInput hmarks
  have hempty₁ := wp_ok (wp_keepsCoins hlabel hempty) hlabels
  have hempty₂ := wp_ok (wp_keepsCoins hinputs hempty₁) hplanned
  have hempty₃ := wp_ok (wp_keepsCoins (emits_fundAction hmarks) hempty₂) hfunding
  exact ⟨_, funding, s₃, outputRows_eq_nil.mp (ownCoins_eq_nil.mp hempty₃), h⟩

/-- A storageCreateAction that succeeds ends with the records for some funding. -/
theorem storageCreateAction_records
    (h : (storageCreateAction sdk entropy userId args).run Stmt.exec s = (.ok r, s')) :
    ∃ basketId now id inputRecords funding s₁, (∀ o ∈ s₁.outputs, o.transactionId ≠ id) ∧
      (recordAction sdk entropy userId args basketId now id inputRecords funding).run Stmt.exec s₁ =
        (.ok r, s') := by
  obtain ⟨basket, id, s₁, -, hinsert, hplan⟩ := storageCreateAction_ok h
  exact ⟨_, _, id, planAction_records (ownCoins_new hinsert) hplan⟩

end Calls

/-! ## The correspondence -/

theorem asI64_eq_iff {n : Nat} (h : n < 18446744073709551616) :
    asI64 n = n ↔ n < 9223372036854775808 := by
  unfold asI64
  omega

/-- Row by row: the amount is the only field that can differ. -/
theorem matches_iff {pending : List PendingOutput} {rows : List Output}
    (hpaired : ∀ p ∈ pending, Paired p) (hstored : Stored pending rows) :
    List.Forall₂ Matches (pending.map (·.record)) rows ↔
      ∀ p ∈ pending, p.record.satoshis.toNat < 9223372036854775808 := by
  induction hstored with
  | nil => simp
  | @cons p o pending rows hrow hrest ih =>
    obtain ⟨n, rfl⟩ := hrow
    obtain ⟨hhead, htail⟩ := List.forall_mem_cons.mp hpaired
    rw [List.map_cons, List.forall₂_cons, ih htail, List.forall_mem_cons,
      ← asI64_eq_iff p.record.satoshis.toNat_lt]
    refine and_congr_left fun _ => ⟨fun h => ?_, fun h => ?_⟩
    · exact hhead.satoshis.symm.trans h.satoshis
    · exact ⟨hhead.vout, hhead.satoshis.trans h, hhead.script⟩

theorem filter_change {pending : List PendingOutput} (hpaired : ∀ p ∈ pending, Paired p) :
    ((pending.map (·.record)).filter (·.purpose == some "change")).map (·.vout) =
      (pending.filter (·.isChange)).map (·.record.vout) := by
  rw [List.filter_map, List.map_map]
  refine congrArg _ (List.filter_congr fun p hp => ?_)
  exact (hpaired p hp).isChange.symm

/-- For every request, every change list and every shuffle the outputs of the result correspond to the
request, to the change and to the rows exactly when the amounts are within the range of a signed
word. -/
theorem outputs_correspond_iff (sdk : Sdk) (entropy : Entropy) (userId : Nat)
    (args : StorageCreateActionArgs) (basketId now id : Nat)
    (inputRecords : List StorageCreateTransactionSdkInput) (funding : Funding) (s s' : Store)
    (r : StorageCreateActionResult) (hnew : ∀ o ∈ s.outputs, o.transactionId ≠ id)
    (h : (recordAction sdk entropy userId args basketId now id inputRecords funding).run Stmt.exec s =
      (.ok r, s')) :
    Corresponds args funding.changeOutputs r (outputRows id s') ↔
      ∀ satoshis ∈ args.outputs.map (·.satoshis) ++ funding.changeOutputs,
        satoshis.toNat < 9223372036854775808 := by
  obtain ⟨pending, houtputs, hpaired, hstored, hrecords, hvouts, hnoSend⟩ :=
    wp_ok (wp_recordAction (outputRows_eq_nil.mpr hnew)) h
  rw [← hrecords.satoshis, List.forall_mem_map, houtputs, List.forall_mem_map,
    ← matches_iff hpaired hstored]
  constructor
  · intro hcorresponds
    rw [← houtputs]
    exact hcorresponds.rows
  · intro hrows
    refine ⟨?_, hrecords, houtputs ▸ hrows, ?_⟩
    · have hsame : (r.outputs.map (·.vout)) = pending.map (·.row.vout) := by
        rw [houtputs, List.map_map]
        exact List.map_congr_left fun p hp => (hpaired p hp).vout.symm
      rw [hsame, houtputs, List.length_map]
      exact hvouts
    · rw [hnoSend, houtputs, filter_change hpaired]

/-- The payer's payment of 500 and its change. -/
def paymentRequest : StorageCreateActionArgs :=
  { description := "payment", inputs := []
    outputs := [{ lockingScript := bytesToHex Sample.bobScript, satoshis := 500
                  outputDescription := "payment" }] }

/-- An output of 2^64 - 1000 satoshis. -/
def hugeRequest : StorageCreateActionArgs :=
  { description := "huge", inputs := []
    outputs := [{ lockingScript := "", satoshis := 18446744073709550616, outputDescription := "" }] }

/-- The payer's call. -/
def payerPlans (args : StorageCreateActionArgs) : Except WalletError StorageCreateActionResult × Store :=
  (storageCreateAction Sample.sdk Sample.entropy 1 args).run Stmt.exec Sample.payer.store

theorem ran_ok {ε σ α β : Type} {call : Except ε α × σ} {f : α → β} {b : β}
    (h : call.1.toOption.map f = some b) : ∃ a, call = (.ok a, call.2) ∧ f a = b := by
  obtain ⟨result, s⟩ := call
  cases result with
  | error e => cases h
  | ok a => exact ⟨a, rfl, Option.some.inj h⟩

theorem payerPlans_payment :
    (payerPlans paymentRequest).1.toOption.map (fun r => r.outputs.map (·.satoshis)) = some [500, 477] := by
  decide +kernel

/-- A payment is recorded as it is planned, with its outputs exchanged. -/
theorem outputs_correspond_payment :
    ∃ r s' changeOutputs id, payerPlans paymentRequest = (.ok r, s') ∧
      r.outputs.map (·.satoshis) = [500, 477] ∧
      Corresponds paymentRequest changeOutputs r (outputRows id s') := by
  obtain ⟨r, hok, hamounts⟩ := ran_ok payerPlans_payment
  obtain ⟨basketId, now, id, inputRecords, funding, s₁, hnew, hrun⟩ := storageCreateAction_records hok
  obtain ⟨-, -, -, -, hrecords, -⟩ := wp_ok (wp_recordAction (outputRows_eq_nil.mpr hnew)) hrun
  refine ⟨r, _, funding.changeOutputs, id, hok, hamounts, (outputs_correspond_iff Sample.sdk
    Sample.entropy 1 paymentRequest basketId now id inputRecords funding s₁ _ r hnew hrun).mpr ?_⟩
  rw [← hrecords.satoshis, hamounts]
  simp

theorem payerPlans_huge :
    (payerPlans hugeRequest).1.toOption.map (fun r => r.outputs.map (·.satoshis)) =
        some [18446744073709550616, 994] ∧
      (outputRows 2 (payerPlans hugeRequest).2).map (·.satoshis) = [-1000, 994] := by
  decide +kernel

/-- The row of the huge output says -1000. -/
theorem outputs_differ :
    ∃ r s', payerPlans hugeRequest = (.ok r, s') ∧
      ∀ changeOutputs, ¬Corresponds hugeRequest changeOutputs r (outputRows 2 s') := by
  obtain ⟨hresult, hrows⟩ := payerPlans_huge
  obtain ⟨r, hok, hamounts⟩ := ran_ok hresult
  refine ⟨r, _, hok, fun changeOutputs h => ?_⟩
  have hsame : (outputRows 2 (payerPlans hugeRequest).2).map (·.satoshis) =
      r.outputs.map (fun record => (record.satoshis.toNat : Int)) :=
    map_eq_of_forall₂ (fun _ _ h => h.satoshis) h.rows
  have hnumbers : r.outputs.map (fun record => (record.satoshis.toNat : Int)) =
      (r.outputs.map (·.satoshis)).map fun satoshis => (satoshis.toNat : Int) := by
    rw [List.map_map]
    rfl
  rw [hrows, hnumbers, hamounts] at hsame
  revert hsame
  decide

end WalletToolbox.Storage
