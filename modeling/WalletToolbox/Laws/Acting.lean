import WalletToolbox.Laws.InternalizeAction
import WalletToolbox.Laws.Tenants
import WalletToolbox.Methods.SpecOps
import WalletToolbox.Sample

/-! # Calls for one user

Every statement of a call for an authenticated user is one for that user.
The ids in a statement were read before, and other programs may have had their turns since: what
makes it safe is that nobody changes whose row an id names. -/

namespace WalletToolbox.Storage

open WalletToolbox.Lib
open WalletToolbox.Lib.Prog hiding pure exec

variable {sdk : Sdk} {s s' : Store} {a n : Nat} {w : Stmt}

/-! ## A call that acts for a user -/

/-- The others do what any program can. -/
class Quiet (R : Store → Store → Prop) : Prop where
  refl : ∀ s, R s s
  evolves : ∀ {s s'}, R s s' → Evolves s s'

instance : Quiet Evolves := ⟨Evolves.refl, fun h => h⟩

instance : Quiet Eq := ⟨fun _ => rfl, fun {s} _ h => h ▸ Evolves.refl s⟩

theorem evolves_others {R : Store → Store → Prop} [Quiet R] :
    ∀ s₁ s₂, Evolves s s₁ → R s₁ s₂ → Evolves s s₂ :=
  fun _ _ h₁ h₂ => h₁.trans (Quiet.evolves h₂)

theorem evolves_exec : ∀ w s₁ n s₂, Stmt.exec w s₁ = .ok (n, s₂) → Evolves s s₁ → Evolves s s₂ :=
  fun w s₁ n s₂ hexec h₁ => h₁.trans (exec_evolves w s₁ n s₂ hexec)

/-- Whatever the others do, every statement of the program is one for the user `a`. -/
def Acting {α : Type} (a : Nat) (R : Store → Store → Prop) (p : StorageProg α)
    (Q : α → Store → Prop) (s : Store) : Prop :=
  p.among Stmt.exec (fun s w => w.Within a s.toTables) R Q s

abbrev Acts {α : Type} (a : Nat) (R : Store → Store → Prop) (p : StorageProg α) (s : Store) : Prop :=
  Acting a R p (fun _ _ => True) s

section Rules

variable {α β : Type} {R : Store → Store → Prop} [Quiet R] {Q : α → Store → Prop}
  {f : β → StorageProg α}

/-- What a part establishes holds at its end, where the store has gone on. -/
theorem acting_end {p : StorageProg β} {P : β → Store → Prop} (h : Acting a R p P s) :
    Acting a R p (fun b s' => P b s' ∧ Evolves s s') s :=
  among_inv evolves_others evolves_exec h (Evolves.refl s)

theorem acting_then {p : StorageProg β} {P : β → Store → Prop} (h : Acting a R p P s)
    (hf : ∀ b s', P b s' → Evolves s s' → Acting a R (f b) Q s') : Acting a R (p >>= f) Q s :=
  among_bind Quiet.refl (among_mono (acting_end h) fun b s' hb => hf b s' hb.1 hb.2)

theorem acting_pure {x : α} (h : ∀ s', Evolves s s' → Q x s') : Acting a R (pure x) Q s :=
  fun s' hs => h s' (Quiet.evolves hs)

omit [Quiet R] in
theorem acting_done {x : α} : Acts a R (pure x) s := fun _ _ => trivial

theorem acting_find {f : Store → α} (h : ∀ s₁ s₂, Evolves s₁ s₂ → Q (f s₁) s₂) :
    Acting a R (find f) Q s :=
  among_ask fun s₁ _ s₂ h₂ => h s₁ s₂ (Quiet.evolves h₂)

theorem acting_ask {q : Store → β}
    (h : ∀ s₁ s₂, Evolves s₁ s₂ → Evolves s s₂ → Acting a R (f (q s₁)) Q s₂) :
    Acting a R (find q >>= f) Q s :=
  among_bind Quiet.refl (among_ask fun s₁ h₁ s₂ h₂ =>
    h s₁ s₂ (Quiet.evolves h₂) ((Quiet.evolves h₁).trans (Quiet.evolves h₂)))

theorem acting_ofExcept {r : Except WalletError α} (h : ∀ x, r = .ok x → ∀ s', Evolves s s' → Q x s') :
    Acting a R (Prog.ofExcept r) Q s :=
  among_ofExcept fun x hx s' hs => h x hx s' (Quiet.evolves hs)

theorem acting_check {r : Except WalletError β}
    (h : ∀ x, r = .ok x → ∀ s', Evolves s s' → Acting a R (f x) Q s') :
    Acting a R (Prog.ofExcept r >>= f) Q s :=
  among_bind Quiet.refl (acting_ofExcept h)

theorem acting_exec {Q : Nat → Store → Prop} (hw : ∀ s', Evolves s s' → w.Within a s'.toTables)
    (h : ∀ s₁ n s₂ s₃, w.exec s₁ = .ok (n, s₂) → Evolves s₂ s₃ → Q n s₃) : Acting a R (exec w) Q s :=
  among_exec fun s₁ h₁ => ⟨hw s₁ (Quiet.evolves h₁), fun n s₂ hexec s₃ h₃ =>
    h s₁ n s₂ s₃ hexec (Quiet.evolves h₃)⟩

theorem acting_emit (hw : ∀ s', Evolves s s' → w.Within a s'.toTables) :
    Acts a R (exec w) s :=
  acting_exec hw fun _ _ _ _ _ _ => trivial

theorem acting_write (hw : ∀ s', Evolves s s' → w.Within a s'.toTables) :
    Acts a R (exec' w) s :=
  acting_then (acting_emit hw) fun _ _ _ _ => acting_done

theorem acting_run {f : Unit → StorageProg α} (hw : ∀ s', Evolves s s' → w.Within a s'.toTables)
    (h : ∀ s', Evolves s s' → Acting a R (f ()) Q s') : Acting a R (exec' w >>= f) Q s :=
  acting_then (acting_write hw) fun _ s' _ => h s'

/-- A row is added, and its id is the answer. -/
theorem acting_insert {g : Nat → α} {P : Nat → Store → Prop}
    (hw : ∀ s', Evolves s s' → w.Within a s'.toTables)
    (hrow : ∀ {s₁ s₂ n}, w.exec s₁ = .ok (n, s₂) → P n s₂)
    (h : ∀ n s₁ s₂, P n s₁ → Evolves s₁ s₂ → Q (g n) s₂) : Acting a R (exec w >>= fun n => pure (g n)) Q s :=
  among_bind Quiet.refl (acting_exec hw fun _ n s₂ _ hexec h₃ => acting_pure fun s₄ h₄ =>
    h n s₂ s₄ (hrow hexec) (h₃.trans h₄))

theorem acting_atomically {p : StorageProg α} (h : ∀ s', Evolves s s' → Acts a Eq p s') :
    Acts a R (Prog.atomically p) s :=
  among_atomically fun s' hs => among_mono (h s' (Quiet.evolves hs)) fun _ _ _ _ _ => trivial

/-- A call whose failure is ignored. -/
theorem acting_ignore {p : StorageProg β} {P : β → Store → Prop} (h : Acting a R p P s) :
    Acts a R (ignore p) s :=
  among_bind Quiet.refl (among_mono (among_attempt (I := Evolves s) evolves_others evolves_exec h
    (Evolves.refl s)) fun _ _ _ => acting_done)

/-- Statements that are for the user whatever the store holds. -/
theorem acting_emits {p : StorageProg α} (hp : p.Emits fun w => ∀ d, w.Within a d) :
    Acting a R p (fun _ _ => True) s :=
  among_mono (hp.among (I := Evolves s) (fun _ s hw _ => hw s.toTables) evolves_others evolves_exec
    (Evolves.refl s)) fun _ _ _ => trivial

/-- A loop whose turns need only what was there at its beginning. -/
theorem acting_forM {γ : Type} {xs : List γ} {f : γ → StorageProg PUnit}
    (hstep : ∀ x ∈ xs, ∀ s', Evolves s s' → Acts a R (f x) s') :
    Acts a R (forM xs f) s :=
  among_mono (among_forM Quiet.refl (I := Evolves s) evolves_others (fun x hx s₁ h₁ => among_mono
    (among_inv evolves_others evolves_exec (hstep x hx s₁ h₁) h₁) fun _ _ h => h.2) (Evolves.refl s))
      fun _ _ _ => trivial

end Rules

/-! ## The parts of the calls -/

section Parts

variable {R : Store → Store → Prop} [Quiet R]

theorem owned_mem {α : Type} [Keyed α] [Lasting α] [Owned α] {t : Table α} {r : α} (h : r ∈ t)
    (howner : Owned.owner r = a) : t.OwnedBy a (key r) :=
  ⟨r, h, rfl, howner⟩

/-- A row that a query for the user's rows found. -/
theorem owned_find {α : Type} [Keyed α] [Lasting α] [Owned α] {t : Table α} {r : α} {p : α → Bool}
    (h : r ∈ t.find fun r => Owned.owner r == a && p r) : t.OwnedBy a (key r) := by
  obtain ⟨hmem, hsel⟩ := Table.mem_find.mp h
  rw [Bool.and_eq_true, beq_iff_eq] at hsel
  exact owned_mem hmem hsel.1

theorem owned_insertTxLabel {r : TxLabel} (h : (Stmt.insertTxLabel r).exec s = .ok (n, s')) :
    s'.txLabels.OwnedBy r.userId n := by
  obtain ⟨rfl, hs'⟩ := exec_eq h
  rw [hs']
  exact Table.OwnedBy.insert r.stored (fun _ => rfl) rfl

theorem owned_insertOutputTag {r : OutputTag} (h : (Stmt.insertOutputTag r).exec s = .ok (n, s')) :
    s'.outputTags.OwnedBy r.userId n := by
  obtain ⟨rfl, hs'⟩ := exec_eq h
  rw [hs']
  exact Table.OwnedBy.insert r.stored (fun _ => rfl) rfl

theorem owned_insertTransaction {r : Transaction}
    (h : (Stmt.insertTransaction r).exec s = .ok (n, s')) : s'.transactions.OwnedBy r.userId n := by
  obtain ⟨rfl, hs'⟩ := exec_eq h
  rw [hs']
  exact Table.OwnedBy.insert r.stored (fun _ => rfl) rfl

/-- The one row that a query found. -/
theorem found_mem {α : Type} [Keyed α] {t : Table α} {p : α → Bool} {r : α}
    (h : verifyOneOrNone (t.find p) = .ok (some r)) : r ∈ t ∧ p r = true :=
  Table.first_some (verifyOneOrNone_first h).symm

theorem assignVouts_userId {args : StorageCreateActionArgs} {entropy : Entropy}
    {pending assigned : List PendingOutput} (h : assignVouts args entropy pending = .ok assigned)
    (hown : ∀ p ∈ pending, p.row.userId = a) : ∀ p ∈ assigned, p.row.userId = a := by
  unfold assignVouts at h
  split at h
  · cases hvouts : randomizedVouts entropy args.randomValsInRange pending.length with
    | error e =>
      rw [hvouts] at h
      cases h
    | ok vouts =>
      rw [hvouts] at h
      obtain rfl : List.zipWith PendingOutput.withVout pending vouts = assigned := Except.ok.inj h
      intro p hp
      obtain ⟨i, hi, rfl⟩ := List.mem_iff_getElem.mp hp
      rw [List.length_zipWith] at hi
      rw [List.getElem_zipWith]
      exact hown pending[i] (List.getElem_mem (Nat.lt_of_lt_of_le hi (Nat.min_le_left _ _)))
  · obtain rfl := Except.ok.inj h
    exact hown

theorem acting_findOrInsertOutputBasket (name : String) :
    Acts a R (findOrInsertOutputBasket a name) s := by
  unfold findOrInsertOutputBasket
  refine acting_ask fun s₁ s₂ _ _ => ?_
  refine acting_check fun found _ s₃ _ => ?_
  cases found with
  | some basket => exact acting_done
  | none =>
    exact acting_ask fun _ _ _ _ => acting_then (acting_emit fun _ _ => rfl) fun _ _ _ _ => acting_done

theorem acting_findOrInsertTxLabel (label : String) :
    Acting a R (findOrInsertTxLabel a label) (fun l s' => s'.txLabels.OwnedBy a l.txLabelId) s := by
  unfold findOrInsertTxLabel
  refine acting_ask fun s₁ s₂ h₁₂ _ => ?_
  refine acting_check fun found hfound s₃ h₂₃ => ?_
  cases found with
  | some l =>
    obtain ⟨hmem, hsel⟩ := found_mem hfound
    rw [Bool.and_eq_true, beq_iff_eq] at hsel
    exact acting_pure fun s₄ h₃₄ =>
      (owned_mem hmem hsel.1).kept ((h₁₂.trans (h₂₃.trans h₃₄)).txLabels)
  | none =>
    exact acting_ask fun _ _ _ _ => acting_insert (fun _ _ => rfl) owned_insertTxLabel fun _ _ _ h hs =>
      h.kept hs.txLabels

theorem acting_findOrInsertOutputTag (tag : String) :
    Acting a R (findOrInsertOutputTag a tag) (fun t s' => s'.outputTags.OwnedBy a t.outputTagId) s := by
  unfold findOrInsertOutputTag
  refine acting_ask fun s₁ s₂ h₁₂ _ => ?_
  refine acting_check fun found hfound s₃ h₂₃ => ?_
  cases found with
  | some t =>
    obtain ⟨hmem, hsel⟩ := found_mem hfound
    rw [Bool.and_eq_true, beq_iff_eq] at hsel
    exact acting_pure fun s₄ h₃₄ =>
      (owned_mem hmem hsel.1).kept ((h₁₂.trans (h₂₃.trans h₃₄)).outputTags)
  | none =>
    exact acting_ask fun _ _ _ _ => acting_insert (fun _ _ => rfl) owned_insertOutputTag fun _ _ _ h hs =>
      h.kept hs.outputTags

/-! ### createAction -/

theorem acting_addActionLabel (now id : Nat) (label : String) :
    Acts a R (addActionLabel now a id label) s := by
  refine acting_then (acting_findOrInsertTxLabel label) fun l s₁ h₁ _ => ?_
  exact acting_write fun s₂ h₂ => h₁.kept h₂.txLabels

theorem acting_callerBasketId (spec : StorageCreateActionOutput) :
    Acts a R (callerBasketId a spec) s := by
  unfold callerBasketId
  split
  · exact acting_then (acting_findOrInsertOutputBasket _) fun _ _ _ _ => acting_done
  · exact acting_done

theorem acting_pendingCallers (now id : Nat) (specs : List StorageCreateActionOutput) :
    Acting a R (specs.foldlM (pendingCaller now a id) [])
      (fun pending _ => ∀ p ∈ pending, p.row.userId = a) s := by
  refine among_foldlM Quiet.refl (I := fun (pending : List PendingOutput) _ =>
    ∀ p ∈ pending, p.row.userId = a) (fun _ _ _ h _ => h) (fun spec _ pending s₁ h₁ => ?_) (by simp)
  refine acting_then (acting_callerBasketId spec) fun basketId s₂ _ _ => ?_
  refine acting_pure fun s₃ _ p hp => ?_
  rcases List.mem_append.mp hp with hold | hnew
  · exact h₁ p hold
  · rw [List.mem_singleton.mp hnew]

theorem acting_storeOutputs (args : StorageCreateActionArgs) (entropy : Entropy)
    (now id basketId : Nat) (changeOutputs : List UInt64) :
    Acts a R (storeOutputs args entropy now a id basketId changeOutputs) s := by
  unfold storeOutputs
  refine acting_then (acting_pendingCallers now id _) fun caller s₁ hcaller _ => ?_
  refine acting_check fun pending hpending s₂ _ => ?_
  have hown := assignVouts_userId hpending fun p hp => by
    rcases List.mem_append.mp hp with hold | hchange
    · exact hcaller p hold
    · obtain ⟨⟨satoshis, i⟩, -, rfl⟩ := List.mem_map.mp hchange
      rfl
  refine acting_then (acting_forM fun p hp s₃ _ => ?_) fun _ s₃ _ _ => ?_
  · exact acting_write fun _ _ => hown p hp
  · exact acting_done

theorem acting_planAction (entropy : Entropy) (args : StorageCreateActionArgs) (basket : OutputBasket)
    (now id : Nat) (h : s.transactions.OwnedBy a id) :
    Acts a R (planAction sdk entropy a args basket now id) s := by
  have hclaim : ∀ ids : List Nat, ∀ d, (Stmt.markInputsSpent ids id a).Within a d := fun _ _ => rfl
  unfold planAction
  refine acting_then (acting_forM fun label _ s₁ _ => acting_addActionLabel now id label)
    fun _ s₁ _ h₁ => ?_
  refine acting_check fun beef _ s₂ h₂ => ?_
  refine acting_then (acting_emits (Emits.foldlM fun _ _ _ => emits_planInput hclaim))
    fun planned s₃ _ h₃ => ?_
  refine acting_then (acting_emits (emits_fundAction hclaim)) fun funding s₄ _ h₄ => ?_
  refine acting_then (acting_storeOutputs args entropy now id _ _)
    fun pending s₅ _ h₅ => ?_
  refine acting_then (acting_emits emits_addChangeInputs) fun inputs s₆ _ h₆ => ?_
  have hlater := h₁.trans (h₂.trans (h₃.trans (h₄.trans (h₅.trans h₆))))
  refine acting_run (fun s₇ h₇ => h.kept (hlater.trans h₇).transactions)
    fun _ _ => ?_
  exact acting_done

theorem acting_storageCreateAction (entropy : Entropy) (args : StorageCreateActionArgs) :
    Acts a R (storageCreateAction sdk entropy a args) s := by
  unfold storageCreateAction
  refine acting_ask fun now _ _ _ => ?_
  refine acting_ask fun rows s₁ _ _ => ?_
  refine acting_check fun basket _ s₂ _ => acting_atomically fun s₃ _ => ?_
  unfold doCreateAction
  refine acting_then (acting_exec (Q := fun id s' => s'.transactions.OwnedBy a id) (fun _ _ => rfl)
    fun _ _ _ _ hexec h₅₆ => (owned_insertTransaction hexec).kept h₅₆.transactions) fun id _ howned _ => ?_
  exact acting_planAction entropy args basket _ id howned

/-! ### processAction -/

theorem acting_scheduleOne (batch : Option String) (txid : String) :
    Acts a R (scheduleOne a batch txid) s := by
  unfold scheduleOne
  refine acting_ask fun s₁ s₂ _ _ => ?_
  split
  · exact acting_done
  · rename_i req _
    split
    · refine acting_run (fun _ _ => trivial) fun s₃ _ => ?_
      refine acting_ask fun s₄ s₅ h₄₅ _ => acting_then (acting_forM fun t ht s₆ h₅₆ =>
        acting_write fun s₇ h₆₇ => ?_) fun _ _ _ _ => acting_done
      exact (owned_find ht).kept (h₄₅.trans (h₅₆.trans h₆₇)).transactions
    · split <;> exact acting_done

theorem acting_scheduleSendWith (random : String) (txids : List String) :
    Acts a R (scheduleSendWith a random txids) s := by
  unfold scheduleSendWith
  split
  · exact acting_done
  · refine acting_atomically fun s₁ _ => among_foldlM Quiet.refl (I := fun _ _ => True)
      (fun _ _ _ _ _ => trivial) (fun txid _ results s₂ _ => ?_) trivial
    exact acting_then (acting_scheduleOne _ txid) fun _ _ _ _ => acting_done

theorem acting_commitSigned {transaction : Transaction} (txid : String) (rawTx : Bytes)
    (status : ReqTxStatus) (h : s.transactions.OwnedBy a transaction.transactionId) :
    Acts a R (commitSigned a transaction txid rawTx status) s := by
  unfold commitSigned
  refine acting_ask fun s₁ s₂ _ h₂ => ?_
  refine acting_run (fun _ _ => trivial) fun s₃ h₃ => ?_
  refine acting_run (fun s₄ h₄ => h.kept (h₂.trans (h₃.trans h₄)).transactions) fun s₄ _ => ?_
  refine acting_ask fun s₅ s₆ h₅₆ _ => acting_forM fun o ho s₇ h₆₇ => acting_write fun s₈ h₇₈ => ?_
  exact (owned_find ho).kept (h₅₆.trans (h₆₇.trans h₇₈)).outputs

theorem acting_sendBatch (args : StorageProcessActionArgs) (random txid : String) :
    Acts a R (sendBatch a args random txid) s := by
  unfold sendBatch
  cases args.sendWith.isEmpty with
  | true => exact acting_done
  | false =>
    exact acting_then (acting_scheduleSendWith random _) fun _ _ _ _ => acting_done

theorem acting_processRows (args : StorageProcessActionArgs) (random txid : String) (rawTx : Bytes)
    {rows : List Transaction} (h : ∀ t ∈ rows, s.transactions.OwnedBy a t.transactionId) :
    Acts a R (processRows a args random txid rawTx rows) s := by
  unfold processRows
  refine acting_check fun t ht s₁ h₁ => ?_
  have hown := h t (by rw [verifyOne_ok ht]; exact List.mem_singleton.mpr rfl)
  refine acting_check fun _ _ s₂ h₂ => ?_
  refine acting_check fun status _ s₃ h₃ => ?_
  refine acting_then (acting_atomically fun s₄ h₄ => acting_commitSigned txid rawTx status
    (hown.kept (h₁.trans (h₂.trans (h₃.trans h₄))).transactions)) fun _ _ _ _ =>
      acting_sendBatch args random txid

omit [Quiet R] in
theorem acting_required {α : Type} (value : Option α) (name : String) :
    Acts a R (required value name) s := by
  unfold required
  split
  · exact acting_done
  · trivial

theorem acting_storageProcessAction (args : StorageProcessActionArgs) (random : String) :
    Acts a R (storageProcessAction a args random) s := by
  unfold storageProcessAction
  split
  · exact acting_then (acting_scheduleSendWith random _) fun _ _ _ _ => acting_done
  · refine acting_then (acting_required _ _) fun reference _ _ _ => ?_
    refine acting_then (acting_required _ _) fun txid _ _ _ => ?_
    refine acting_then (acting_required _ _) fun rawTx _ _ _ => ?_
    refine acting_ask fun s₁ s₂ h₁₂ _ => ?_
    refine acting_processRows args random txid rawTx fun t ht => ?_
    exact (owned_find ht).kept h₁₂.transactions

/-! ### abortAction -/

/-- The action that a reference names belongs to the caller. -/
theorem acting_findAbortTarget (reference : Bytes) :
    Acting a R (findAbortTarget a reference) (fun found s' => ∀ tx, found = some tx →
      s'.transactions.OwnedBy a tx.transactionId) s := by
  have hfirst : ∀ {s₁ s₂ : Store} {p : Transaction → Bool} {tx : Transaction}, Evolves s₁ s₂ →
      s₁.transactions.first (fun t => t.userId == a && p t) = some tx →
        s₂.transactions.OwnedBy a tx.transactionId := by
    intro s₁ s₂ p tx h₁₂ hfound
    obtain ⟨hmem, hsel⟩ := Table.first_some hfound
    rw [Bool.and_eq_true, beq_iff_eq] at hsel
    exact (owned_mem hmem hsel.1).kept h₁₂.transactions
  unfold findAbortTarget
  refine acting_ask fun s₁ s₂ h₁₂ _ => ?_
  split
  · rename_i tx hfound
    refine acting_pure fun s₃ h₂₃ tx' htx => ?_
    obtain rfl := Option.some.inj htx
    exact hfirst (h₁₂.trans h₂₃) hfound
  · split
    · exact acting_pure fun _ _ _ htx => by cases htx
    · exact acting_find fun s₃ s₄ h₃₄ tx htx => hfirst h₃₄ htx

theorem acting_abortInputs (tx : Transaction) :
    Acting a R (abortInputs sdk a tx) (fun ids s' => ∀ id ∈ ids, s'.outputs.OwnedBy a id) s := by
  unfold abortInputs
  refine acting_ask fun s₁ s₂ h₁₂ _ => ?_
  have hclaimed : ∀ o ∈ s₁.outputs.find (fun o => o.userId == a && o.spentBy == some tx.transactionId),
      s₂.outputs.OwnedBy a o.outputId := by
    intro o ho
    exact (owned_find ho).kept h₁₂.outputs
  split
  · refine acting_pure fun s₃ h₂₃ id hid => ?_
    obtain ⟨o, ho, rfl⟩ := List.mem_map.mp hid
    exact (hclaimed o ho).kept h₂₃.outputs
  · split
    · trivial
    · refine acting_ask fun s₃ s₄ h₃₄ h₂₄ => acting_pure fun s₅ h₄₅ id hid => ?_
      rw [List.mem_eraseDups] at hid
      obtain ⟨o, ho, rfl⟩ := List.mem_map.mp hid
      rcases List.mem_append.mp ho with ho | ho
      · exact (hclaimed o ho).kept (h₂₄.trans h₄₅).outputs
      · unfold rowsOfInputs at ho
        obtain ⟨i, -, ho⟩ := List.mem_flatMap.mp ho
        split at ho
        · cases ho
        · obtain ⟨hmem, hsel⟩ := Table.mem_find.mp ho
          simp only [Bool.and_eq_true, beq_iff_eq] at hsel
          exact (owned_mem hmem hsel.1.1).kept (h₃₄.trans h₄₅).outputs

theorem acting_retireOutputs (id : Nat) : Acts a R (retireOutputs a id) s := by
  unfold retireOutputs
  refine acting_ask fun s₁ s₂ h₁₂ _ => ?_
  refine acting_forM fun o ho s₃ h₂₃ => ?_
  split
  · refine acting_write fun s₄ h₃₄ => ?_
    exact (owned_find ho).kept (h₁₂.trans (h₂₃.trans h₃₄)).outputs
  · exact acting_done

theorem acting_abortRequest (txid : Option String) (reference stamp : String) :
    Acts a R (abortRequest txid reference stamp) s := by
  unfold abortRequest
  split
  · exact acting_done
  · refine acting_ask fun s₁ s₂ _ _ => ?_
    split
    · exact acting_done
    · refine acting_check fun _ _ _ _ => ?_
      exact acting_write fun _ _ => trivial

/-! ### internalizeAction -/

theorem acting_findOwnOutput (txid : String) (vout : Nat) :
    Acting a R (findOwnOutput a txid vout) (fun found s' => ∀ o, found = some o →
      s'.outputs.OwnedBy a o.outputId) s := by
  unfold findOwnOutput
  refine acting_ask fun s₁ s₂ h₁₂ _ => ?_
  refine acting_ofExcept fun found hfound s₃ h₂₃ o ho => ?_
  rw [ho] at hfound
  obtain ⟨hmem, hsel⟩ := found_mem hfound
  simp only [Bool.and_eq_true, beq_iff_eq] at hsel
  exact (owned_mem hmem hsel.1.1).kept (h₁₂.trans h₂₃).outputs

theorem acting_addNetSatoshis (subject : Subject) (isMerge : Bool) (basketId : Nat) (satoshis : Int)
    (spec : InternalizeOutput) :
    Acts a R (addNetSatoshis a subject isMerge basketId satoshis spec) s := by
  have hlook : ∀ (vout : Nat) {f : Option Output → StorageProg Int},
      (∀ found s', Acts a R (f found) s') →
        Acts a R (findOwnOutput a subject.txid vout >>= f) s :=
    fun vout f hf => acting_then (acting_findOwnOutput _ vout) fun found s' _ _ =>
      hf found s'
  unfold addNetSatoshis
  cases spec with
  | walletPayment i _ _ _ | basketInsertion i _ _ _ =>
    cases isMerge with
    | true =>
      refine hlook i fun found s' => ?_
      split
      · split <;> exact acting_done
      · exact acting_done
    | false => exact acting_done

/-- What a call prepares names the caller and a transaction of the caller. -/
structure PreparedFor (a : Nat) (c : Internalizing) (s : Store) : Prop where
  userId : c.userId = a
  existing : ∀ t, c.existing = some t → s.transactions.OwnedBy a t.transactionId

theorem acting_prepareInternalize (tracker : ChainTracker) (args : StorageInternalizeActionArgs) :
    Acting a R (prepareInternalize sdk tracker a args) (fun c s' => PreparedFor a c s') s := by
  unfold prepareInternalize
  refine acting_check fun beef _ s₁ _ => ?_
  refine acting_check fun _ _ s₂ _ => ?_
  refine acting_check fun subject _ s₃ _ => ?_
  refine acting_check fun _ _ s₄ _ => ?_
  refine acting_ask fun s₅ s₆ h₅₆ _ => ?_
  refine acting_check fun existing hexisting s₇ h₆₇ => ?_
  refine acting_check fun _ _ s₈ h₇₈ => ?_
  refine acting_then (acting_findOrInsertOutputBasket _) fun basket s₉ _ h₈₉ => ?_
  refine acting_then (among_foldlM Quiet.refl (I := fun _ _ => True) (fun _ _ _ _ _ => trivial)
    (fun spec _ satoshis s' _ => acting_addNetSatoshis subject _ _ satoshis spec) trivial)
      fun satoshis s₁₀ _ h₉₁₀ => acting_pure fun s₁₁ h₁₀₁₁ => ⟨rfl, fun t ht => ?_⟩
  obtain rfl : existing = some t := ht
  obtain ⟨hmem, hsel⟩ := found_mem hexisting
  rw [Bool.and_eq_true, beq_iff_eq] at hsel
  exact (owned_mem hmem hsel.1).kept (h₅₆.trans (h₆₇.trans (h₇₈.trans (h₈₉.trans
    (h₉₁₀.trans h₁₀₁₁))))).transactions

theorem acting_storeAncestors (beef : Beef) :
    Acts a R (forM beef.txs (storeAncestor sdk beef)) s := by
  refine acting_emits (Emits.forM fun btx hb => (emits_storeAncestor hb).mono fun w hw d => ?_)
  cases w with
  | insertProvenTx r => trivial
  | _ => cases hw

theorem acting_subjectProvenTxId (c : Internalizing) :
    Acts a R (subjectProvenTxId sdk c) s := by
  unfold subjectProvenTxId subjectProof
  split
  · split
    · exact acting_done
    · split
      · trivial
      · trivial
      · refine acting_ask fun _ _ _ _ => ?_
        refine acting_check fun found _ _ _ => ?_
        cases found with
        | some p => exact acting_done
        | none =>
          refine acting_ask fun _ _ _ _ => ?_
          exact acting_then (acting_emit fun _ _ => trivial) fun _ _ _ _ => acting_done
  · exact acting_done

theorem acting_subjectTransaction {c : Internalizing} (provenTxId : Option Nat)
    (h : PreparedFor a c s) :
    Acts a R (subjectTransaction sdk c provenTxId) s := by
  unfold subjectTransaction
  split
  · rename_i t ht
    have hown := h.existing t ht
    split
    · exact acting_run (fun s₁ h₁ => hown.kept h₁.transactions) fun _ _ => acting_done
    · exact acting_done
  · refine acting_ask fun _ _ _ _ => ?_
    exact acting_emit fun _ _ => h.userId

theorem acting_addLabel (id : Nat) (label : String) :
    Acts a R (addLabel a id label) s := by
  refine acting_then (acting_findOrInsertTxLabel label) fun l s₁ h₁ _ => ?_
  refine acting_ask fun _ s₂ _ h₂ => ?_
  exact acting_ignore (acting_emit fun s₃ h₃ => h₁.kept (h₂.trans h₃).txLabels)

theorem acting_addTag (id vout : Nat) (tag : String) :
    Acts a R (addTag a id vout tag) s := by
  refine acting_then (acting_findOrInsertOutputTag tag) fun t s₁ h₁ _ => ?_
  refine acting_ask fun _ s₂ _ h₂ => ?_
  refine acting_check fun found _ s₃ h₃ => ?_
  cases found with
  | none => exact acting_done
  | some o =>
    refine acting_ask fun _ s₄ _ h₄ => ?_
    exact acting_ignore (acting_emit fun s₅ h₅ =>
      h₁.kept (h₂.trans (h₃.trans (h₄.trans h₅))).outputTags)

theorem acting_findMerged {c : Internalizing} (hc : c.userId = a) (vout : Nat) :
    Acting a R (findMerged c vout) (fun found s' => ∀ o, found = some o →
      s'.outputs.OwnedBy a o.outputId) s := by
  subst hc
  unfold findMerged
  split
  · exact acting_findOwnOutput _ vout
  · exact acting_pure fun _ _ _ ho => by cases ho

theorem acting_internalizeOutput {c : Internalizing} (hc : c.userId = a) (id : Nat)
    (spec : InternalizeOutput) : Acts a R (internalizeOutput c id spec) s := by
  subst hc
  have hinsert : ∀ {r : Nat → Output} s', (∀ now, (r now).userId = c.userId) →
      Acts c.userId R (do
        let now ← utcNow
        exec' (.insertOutput (r now))) s' := fun s' hr =>
    acting_ask fun _ _ _ _ => acting_write fun _ _ => hr _
  cases spec with
  | walletPayment i sender pre suf =>
    refine acting_then (acting_findMerged rfl _) fun found s₁ hfound _ => ?_
    cases found with
    | some o =>
      refine among_mono (Q := fun _ _ => True) ?_ fun _ _ _ => trivial
      simp only
      split
      · exact acting_done
      · exact acting_write fun s₂ h₂ => (hfound o rfl).kept h₂.outputs
    | none => exact hinsert s₁ fun _ => rfl
  | basketInsertion i name custom tags =>
    refine acting_then (acting_findOrInsertOutputBasket _) fun basket s₁ _ _ => ?_
    refine acting_then (acting_findMerged rfl _) fun found s₂ hfound _ => ?_
    have htags : ∀ s', Acts c.userId R (forM tags (addTag c.userId id i)) s' :=
      fun s' => acting_forM fun tag _ _ _ => acting_addTag id _ tag
    cases found with
    | some o =>
      exact acting_run (fun s₃ h₃ => (hfound o rfl).kept h₃.outputs)
        fun s₄ _ => htags s₄
    | none =>
      exact acting_then (hinsert s₂ fun _ => rfl) fun _ s₄ _ _ => htags s₄

theorem acting_requestProof (c : Internalizing) (id : Nat) :
    Acts a R (requestProof sdk c id) s := by
  unfold requestProof
  split
  · refine acting_ask fun _ _ _ _ => ?_
    exact acting_write fun _ _ => trivial
  · exact acting_done

theorem acting_internalizeBody {c : Internalizing} (h : PreparedFor a c s) :
    Acts a R (internalizeBody sdk c) s := by
  unfold internalizeBody
  refine acting_then (acting_storeAncestors c.beef) fun _ s₁ _ h₁ => ?_
  refine acting_then (acting_subjectProvenTxId c) fun provenTxId s₂ _ h₂ => ?_
  have hprep : PreparedFor a c s₂ :=
    ⟨h.userId, fun t ht => (h.existing t ht).kept (h₁.trans h₂).transactions⟩
  refine acting_then (acting_subjectTransaction provenTxId hprep)
    fun id s₃ _ _ => ?_
  refine acting_then (acting_forM fun label _ s₄ _ => h.userId ▸ acting_addLabel id label)
    fun _ s₄ _ _ => ?_
  exact acting_then (acting_forM fun spec _ s₅ _ => acting_internalizeOutput h.userId id spec)
    fun _ s₅ _ _ => acting_requestProof c id

theorem acting_storageInternalizeAction (tracker : ChainTracker) (args : StorageInternalizeActionArgs) :
    Acts a R (storageInternalizeAction sdk tracker a args) s := by
  unfold storageInternalizeAction
  refine acting_then (acting_prepareInternalize tracker args) fun c s₁ hprep _ => ?_
  exact acting_then (acting_atomically fun s₂ h₂ => acting_internalizeBody
    ⟨hprep.userId, fun t ht => (hprep.existing t ht).kept h₂.transactions⟩) fun _ _ _ _ => acting_done

theorem acting_releaseInputsSpentBy {ids : List Nat} (id : Nat)
    (h : ∀ i ∈ ids, s.outputs.OwnedBy a i) :
    Acts a R (releaseInputsSpentBy ids id) s := by
  unfold releaseInputsSpentBy
  split
  · exact acting_done
  · exact acting_emit fun s₁ h₁ i hi => (h i hi).kept h₁.outputs

end Parts

/-! ## A call with an identity key -/

/-- The row of the user with the identity key. -/
def IsUser (auth : String) (a : Nat) (s : Store) : Prop :=
  ∃ u ∈ s.users, u.userId = a ∧ u.identityKey = auth

theorem IsUser.evolves {auth : String} (h : IsUser auth a s) (hs : Evolves s s') : IsUser auth a s' := by
  obtain ⟨u, hu, hid, hkey⟩ := h
  obtain ⟨u', hu', hid', hkey'⟩ := hs.users u hu
  exact ⟨u', hu', hid'.trans hid, hkey'.trans hkey⟩

theorem isUser_insertUser {row : User} (h : (Stmt.insertUser row).exec s = .ok (n, s')) :
    IsUser row.identityKey n s' := by
  obtain ⟨rfl, hs'⟩ := exec_eq h
  have hmem : row.stored (s.users.lastId + 1) ∈ s.users.insert row.stored fun _ => rfl :=
    Table.mem_insert.mpr (.inr rfl)
  refine ⟨row.stored (s.users.lastId + 1), ?_, rfl, rfl⟩
  rw [hs']
  exact hmem

/-- The statement adds the row of the user with the identity key, or it is one for that user. -/
def Stmt.For (auth : String) (s : Store) (w : Stmt) : Prop :=
  (∃ row : User, w = .insertUser row ∧ row.identityKey = auth) ∨
    ∃ a, IsUser auth a s ∧ w.Within a s.toTables

/-- Whatever the others do, every statement of the program is one for the user with the key. -/
def ActingAs {α : Type} (auth : String) (R : Store → Store → Prop) (p : StorageProg α)
    (Q : α → Store → Prop) (s : Store) : Prop :=
  p.among Stmt.exec (Stmt.For auth) R Q s

section Calls

variable {α β : Type} {R : Store → Store → Prop} [Quiet R] {auth : String}

/-- A call for a user whose row has been found. -/
theorem Acting.as {p : StorageProg α} {Q : α → Store → Prop} (h : Acting a R p Q s)
    (huser : IsUser auth a s) : ActingAs auth R p Q s :=
  among_weaken (I := IsUser auth a) (fun _ _ h hs => h.evolves (Quiet.evolves hs))
    (fun w s₁ n s₂ hexec h => h.evolves (exec_evolves w s₁ n s₂ hexec))
    (fun _ _ h hw => .inr ⟨a, h, hw⟩) h huser

theorem actingAs_findOrInsertUser :
    ActingAs auth R (findOrInsertUser auth) (fun r s' => IsUser auth r.1.userId s') s := by
  unfold findOrInsertUser findUserByIdentityKey
  refine among_bind Quiet.refl (among_bind Quiet.refl (among_ask fun s₁ h₁ s₂ h₂ => ?_))
  refine among_ofExcept fun found hfound s₃ h₃ => ?_
  cases found with
  | some u =>
    obtain ⟨hmem, hkey⟩ := found_mem hfound
    have huser : IsUser auth u.userId s₁ := ⟨u, hmem, rfl, beq_iff_eq.mp hkey⟩
    exact among_pure fun s₄ h₄ =>
      ((huser.evolves (Quiet.evolves h₂)).evolves (Quiet.evolves h₃)).evolves (Quiet.evolves h₄)
  | none =>
    refine among_bind Quiet.refl (among_ask fun s₄ _ s₅ _ => among_bind Quiet.refl ?_)
    refine among_exec fun s₆ _ => ⟨.inl ⟨_, rfl, rfl⟩, fun n s₇ hexec s₈ h₈ => ?_⟩
    exact among_pure fun s₉ h₉ =>
      ((isUser_insertUser hexec).evolves (Quiet.evolves h₈)).evolves (Quiet.evolves h₉)

/-- A call begins with its user. -/
theorem actingAs_user {f : Nat → StorageProg α} {Q : α → Store → Prop}
    (h : ∀ a s', Acting a R (f a) Q s') :
    ActingAs auth R (findOrInsertUser auth >>= fun r => f r.1.userId) Q s :=
  among_bind Quiet.refl (among_mono (actingAs_findOrInsertUser) fun _ _ huser =>
    (h _ _).as huser)

/-- A call begins with its user and with the check of the id that the caller claims. -/
theorem actingAs_scope {auth : AuthId} {f : Nat → StorageProg α} {Q : α → Store → Prop}
    (h : ∀ a s', Acting a R (f a) Q s') :
    ActingAs auth.identityKey R (resolveUserScope auth >>= f) Q s := by
  refine among_bind Quiet.refl (among_bind Quiet.refl (among_mono (actingAs_findOrInsertUser)
    fun r s₁ huser => ?_))
  have hpure : ActingAs auth.identityKey R (pure r.1.userId)
      (fun b s' => ActingAs auth.identityKey R (f b) Q s') s₁ :=
    among_pure fun s₂ h₂ => (h _ _).as (huser.evolves (Quiet.evolves h₂))
  cases auth.userId with
  | none => exact hpure
  | some claimed =>
    simp only
    split
    · trivial
    · exact hpure

/-! ### The smaller calls -/

theorem acting_handleSetChangeParams (tags : List String) :
    Acts a R (handleSetChangeParams a tags) s := by
  unfold handleSetChangeParams
  refine acting_ask fun s₁ s₂ h₁₂ _ => ?_
  have hend : ∀ s', Acting a R (pure { totalOutputs := 0, beef := none, outputs := [] })
      (fun (_ : ListOutputsResult) _ => True) s' := fun s' => acting_done
  split
  · rename_i basket hbasket
    refine acting_run (fun s₃ h₃ => ?_) fun s₃ _ => hend s₃
    obtain ⟨hmem, hsel⟩ := Table.mem_find.mp (List.mem_of_head? hbasket)
    rw [Bool.and_eq_true, beq_iff_eq] at hsel
    exact (owned_mem hmem hsel.1).kept (h₁₂.trans h₃).outputBaskets
  · exact hend _

theorem acting_listOutputsRw (args : ListOutputsArgs) :
    Acts a R (listOutputsRw a args) s := by
  unfold listOutputsRw
  split
  · exact acting_find fun _ _ _ => trivial
  · exact acting_find fun _ _ _ => trivial
  · exact acting_handleSetChangeParams _
  · exact acting_ask fun _ _ _ _ => acting_ofExcept fun _ _ _ _ => trivial

/-- A query for one row of the caller and an update of it. -/
theorem acting_updateOne {α : Type} [Keyed α] [Lasting α] [Owned α] {t : Store → Table α}
    {sel : α → Bool} {f : α → Stmt} (hsel : ∀ r, sel r = true → Owned.owner r = a)
    (hkept : ∀ s₁ s₂, Evolves s₁ s₂ → (t s₁).Kept (t s₂))
    (hw : ∀ r s', (t s').OwnedBy a (key r) → (f r).Within a s'.toTables) :
    Acting a R (do
      let rows ← find fun s => (t s).find sel
      let row ← Prog.ofExcept (verifyOne rows)
      exec' (f row)
      pure 1) (fun (_ : Nat) _ => True) s := by
  refine acting_ask fun s₁ s₂ h₂ _ => ?_
  refine acting_check fun row hrow s₃ h₃ => acting_run (fun s₄ h₄ => ?_)
    fun _ _ => acting_done
  obtain ⟨hmem, hfound⟩ := Table.mem_find.mp
    (by rw [verifyOne_ok hrow]; exact List.mem_singleton.mpr rfl : row ∈ (t s₁).find sel)
  exact hw row s₄ ((owned_mem hmem (hsel row hfound)).kept (hkept _ _ (h₂.trans (h₃.trans h₄))))

end Calls

theorem actingAs_abortAction {R : Store → Store → Prop} {auth : String} (reference : Bytes) (stamp : String) :
    ActingAs auth R (abortAction sdk auth reference stamp) (fun _ _ => True) s := by
  refine among_atomically fun s₁ _ => ?_
  unfold abortActionBody findUserByIdentityKey
  refine among_bind Quiet.refl (among_bind Quiet.refl (among_ask fun s₂ _ s₃ h₃ => ?_))
  refine among_ofExcept fun found hfound s₄ h₄ => ?_
  cases found with
  | none => trivial
  | some user =>
    obtain ⟨hmem, hkey⟩ := found_mem hfound
    have huser : IsUser auth user.userId s₂ := ⟨user, hmem, rfl, beq_iff_eq.mp hkey⟩
    subst h₃ h₄
    refine Acting.as ?_ huser
    refine acting_then (acting_findAbortTarget reference) fun target s₃ htarget _ => ?_
    cases target with
    | none => trivial
    | some tx =>
      simp only
      split
      · trivial
      · refine acting_then (acting_abortInputs tx) fun ids s₄ hids h₄ => ?_
        refine acting_then (acting_releaseInputsSpentBy _ hids) fun _ s₅ _ h₅ => ?_
        refine acting_then (acting_retireOutputs _) fun _ s₆ _ h₆ => ?_
        have hown := (htarget tx rfl).kept (h₄.trans (h₅.trans h₆)).transactions
        refine acting_run (fun s₇ h₇ => hown.kept h₇.transactions) fun _ _ => ?_
        exact among_mono (acting_abortRequest _ _ stamp) fun _ _ _ _ _ => trivial

/-! ## The calls of the provider -/

/-- What the provider does for an authenticated user, the exchange of sync chunks apart. -/
inductive ProviderCall where
  | createAction (entropy : Entropy) (args : StorageCreateActionArgs)
  | processAction (args : StorageProcessActionArgs) (random : String)
  | internalizeAction (tracker : ChainTracker) (args : StorageInternalizeActionArgs)
  | abortAction (reference : Bytes) (stamp : String)
  | listOutputs (args : ListOutputsArgs)
  | insertCertificate (certificate : Certificate)
  | relinquishCertificate (args : RelinquishCertificateArgs)
  | relinquishOutput (output : String)
  | findOrInsertSyncState (refNum storageIdentityKey storageName : String)
  | setActive (newActiveStorageIdentityKey : String)

def ProviderCall.prog (sdk : Sdk) (auth : AuthId) : ProviderCall → StorageProg Unit
  | .createAction entropy args => do
    let _ ← Storage.createAction sdk entropy auth.identityKey args
  | .processAction args random => do
    let _ ← Storage.processAction auth.identityKey args random
  | .internalizeAction tracker args => do
    let _ ← Storage.internalizeAction sdk tracker auth.identityKey args
  | .abortAction reference stamp => Storage.abortAction sdk auth.identityKey reference stamp
  | .listOutputs args => do
    let _ ← listOutputsAuth auth args
  | .insertCertificate certificate => do
    let _ ← insertCertificateAuth auth certificate
  | .relinquishCertificate args => do
    let _ ← Storage.relinquishCertificate auth args
  | .relinquishOutput output => do
    let _ ← Storage.relinquishOutput auth output
  | .findOrInsertSyncState refNum storageIdentityKey storageName => do
    let _ ← findOrInsertSyncStateAuth refNum auth storageIdentityKey storageName
  | .setActive newActiveStorageIdentityKey => do
    let _ ← Storage.setActive auth newActiveStorageIdentityKey

theorem checkOwner_ok {userId owner m : Nat} (h : checkOwner userId owner = .ok m) : m = userId := by
  unfold checkOwner at h
  split at h
  · cases h
  · exact (Except.ok.inj h).symm

/-- Every statement of a call is one for the caller, whatever other programs do meanwhile. -/
theorem actingAs_call (auth : AuthId) (call : ProviderCall) :
    ActingAs auth.identityKey Evolves (call.prog sdk auth) (fun _ _ => True) s := by
  have hvoid : ∀ {α : Type} {p : StorageProg α},
      ActingAs auth.identityKey Evolves p (fun _ _ => True) s →
        ActingAs auth.identityKey Evolves (do let _ ← p) (fun _ _ => True) s := fun h =>
    among_bind Evolves.refl (among_mono h fun _ _ _ => among_pure fun _ _ => trivial)
  cases call with
  | createAction entropy args =>
    exact hvoid (actingAs_user fun a s' => acting_storageCreateAction entropy args)
  | processAction args random =>
    exact hvoid (actingAs_user fun a s' => acting_storageProcessAction args random)
  | internalizeAction tracker args =>
    exact hvoid (actingAs_user fun a s' =>
      acting_storageInternalizeAction tracker args)
  | abortAction reference stamp => exact actingAs_abortAction reference stamp
  | listOutputs args =>
    exact hvoid (actingAs_scope fun a s' => acting_listOutputsRw args)
  | insertCertificate certificate =>
    refine hvoid (actingAs_scope fun a s' => ?_)
    refine acting_check fun owner howner s₁ _ => ?_
    refine acting_emit fun _ _ => ?_
    exact checkOwner_ok howner
  | relinquishCertificate args =>
    refine hvoid (actingAs_scope fun a s' => acting_updateOne (fun c hc => ?_)
      (fun _ _ h => h.certificates) fun _ _ h => h)
    simp only [Bool.and_eq_true, beq_iff_eq] at hc
    exact hc.1.1.1
  | relinquishOutput output =>
    refine hvoid (actingAs_scope fun a s' => ?_)
    split
    · trivial
    · split
      · trivial
      · refine acting_updateOne (fun o ho => ?_) (fun _ _ h => h.outputs) fun _ _ h => h
        simp only [Bool.and_eq_true, beq_iff_eq] at ho
        exact ho.1.1
  | findOrInsertSyncState refNum storageIdentityKey storageName =>
    refine hvoid (actingAs_scope fun a s' => ?_)
    refine acting_then (acting_ask fun _ _ _ _ =>
      acting_ofExcept (Q := fun _ _ => True) fun _ _ _ _ => trivial) fun found s₁ _ _ => ?_
    cases found with
    | some _ => exact acting_done
    | none =>
      refine acting_ask fun _ _ _ _ => ?_
      exact acting_then (acting_emit fun _ _ => rfl) fun _ _ _ _ => acting_done
  | setActive newActiveStorageIdentityKey =>
    exact hvoid (actingAs_scope fun a s' =>
      acting_emit (fun _ _ => rfl))

/-! ## Interleavings -/

/-- The statement is one for another user than the one with the key. -/
def Stmt.ForOther (key : String) (s : Store) (w : Stmt) : Prop :=
  ∃ auth, auth ≠ key ∧ w.For auth s

/-- What one statement for another user leaves alone. -/
theorem untouched_exec {b : User} (hw : w.ForOther b.identityKey s)
    (hb : IsUser b.identityKey b.userId s) (h : w.exec s = .ok (n, s')) :
    Untouched b.userId s.toTables s'.toTables := by
  rw [(exec_eq h).2]
  obtain ⟨u, hu, hid, hkey⟩ := hb
  obtain ⟨auth, hne, ⟨row, rfl, -⟩ | ⟨a, ⟨v, hv, hvid, hvkey⟩, hwithin⟩⟩ := hw
  · exact untouched_apply (a := b.userId + 1) trivial (Nat.succ_ne_self _) ⟨u, hu, hid⟩
  · refine untouched_apply hwithin (fun heq => hne ?_) ⟨u, hu, hid⟩
    -- Two users with one id are one user.
    have hsame : v = u := Table.eq_of_key_eq hv hu (hvid.trans (heq.trans hid.symm))
    rw [← hvkey, hsame, hkey]

section Interleaving

variable {progs : List (StorageProg Unit)} {b : User}

/-- A pool in which the turns of the schedule belong to calls of others. -/
theorem among_calls {turns : List Nat}
    (hcalls : ∀ i ∈ turns, ∃ auth call, progs[i]? = some (ProviderCall.prog sdk auth call) ∧
      auth.identityKey ≠ b.identityKey) :
    (Pool.mk progs s).Among Stmt.exec Evolves
      (fun i s w => i ∈ turns → w.ForOther b.identityKey s) fun _ _ _ => True := by
  intro i p hp
  have hweaken : ∀ {ok : Store → Stmt → Prop}, p.among Stmt.exec ok Evolves (fun _ _ => True) s →
      (∀ w s, ok s w → i ∈ turns → w.ForOther b.identityKey s) →
        p.among Stmt.exec (fun s w => i ∈ turns → w.ForOther b.identityKey s) Evolves
          (fun _ _ => True) s := fun h hok =>
    among_weaken (I := fun _ => True) (fun _ _ _ _ => trivial) (fun _ _ _ _ _ _ => trivial)
      (fun w s _ hw => hok w s hw) h trivial
  by_cases hi : i ∈ turns
  · obtain ⟨auth, call, hcall, hne⟩ := hcalls i hi
    obtain rfl : p = call.prog sdk auth := Option.some.inj (hp.symm.trans hcall)
    exact hweaken (actingAs_call auth call) fun w s hw _ => ⟨auth.identityKey, hne, hw⟩
  · exact hweaken (among_true p) fun _ _ _ h => absurd h hi

theorem untouched_runs {turns schedule : List Nat} {c : Pool Store Stmt WalletError Unit}
    (hsub : ∀ i ∈ schedule, i ∈ turns)
    (hpool : c.Among Stmt.exec Evolves (fun i s w => i ∈ turns → w.ForOther b.identityKey s)
      fun _ _ _ => True) (hb : IsUser b.identityKey b.userId c.store) :
    Untouched b.userId c.store.toTables (c.runs Stmt.exec schedule).store.toTables := by
  induction schedule generalizing c with
  | nil => exact .refl _ _
  | cons i rest ih =>
    have hturn : Untouched b.userId c.store.toTables (c.turn Stmt.exec i).store.toTables ∧
        IsUser b.identityKey b.userId (c.turn Stmt.exec i).store := by
      unfold Pool.turn
      cases hp : c.progs[i]? with
      | none => exact ⟨.refl _ _, hb⟩
      | some p =>
        refine among_keeps (I := fun s => Untouched b.userId c.store.toTables s.toTables ∧
          IsUser b.identityKey b.userId s) Evolves.refl (hpool i p hp) ?_ ⟨.refl _ _, hb⟩
        exact fun w s n s' hw ⟨hkeep, huser⟩ hexec =>
          ⟨hkeep.trans (untouched_exec (hw (hsub i (by simp))) huser hexec),
            huser.evolves (exec_evolves w s n s' hexec)⟩
    exact hturn.1.trans (ih (fun j hj => hsub j (by simp [hj]))
      (hpool.turn Evolves.refl (fun _ _ _ => Evolves.trans) exec_evolves i) hturn.2)

/-- Whatever programs have run before and whatever is under way, turns of calls for others leave what
a user has as it is. -/
theorem tenants_apart (sdk : Sdk) (progs : List (StorageProg Unit)) (s : Store)
    (before turns : List Nat) {b : User}
    (hb : b ∈ ((Pool.mk progs s).runs Stmt.exec before).store.users)
    (hcalls : ∀ i ∈ turns, ∃ auth call, progs[i]? = some (ProviderCall.prog sdk auth call) ∧
      auth.identityKey ≠ b.identityKey) :
    Untouched b.userId ((Pool.mk progs s).runs Stmt.exec before).store.toTables
      ((Pool.mk progs s).runs Stmt.exec (before ++ turns)).store.toTables := by
  have hpool := (among_calls (s := s) hcalls).runs Evolves.refl (fun _ _ _ => Evolves.trans) exec_evolves
    before
  have hrest := untouched_runs (fun i (hi : i ∈ turns) => hi) hpool ⟨b, hb, rfl, rfl⟩
  simp only [Pool.runs, List.foldl_append] at hrest ⊢
  exact hrest

/-- A call for one user while one for another is under way. -/
theorem tenants_apart_pair :
    let pair : List (StorageProg Unit) :=
      [(ProviderCall.setActive "cloud").prog Sample.sdk ⟨"alice", none⟩,
        (ProviderCall.findOrInsertSyncState "cmVm" "cloud" "backup").prog Sample.sdk ⟨"bob", none⟩]
    Untouched 1 ((Pool.mk pair .empty).runs Stmt.exec [1, 1, 1, 1, 0]).store.toTables
      ((Pool.mk pair .empty).runs Stmt.exec [1, 1, 1, 1, 0, 0, 0, 0]).store.toTables :=
  tenants_apart Sample.sdk _ .empty [1, 1, 1, 1, 0] [0, 0, 0]
    (b := { userId := 1, createdAt := 0, updatedAt := 31536000000, identityKey := "bob", activeStorage := "" })
    (List.mem_singleton.mpr rfl) (by
      intro i hi
      obtain rfl : i = 0 := by simpa using hi
      exact ⟨⟨"alice", none⟩, .setActive "cloud", rfl, by decide⟩)

end Interleaving

end WalletToolbox.Storage
