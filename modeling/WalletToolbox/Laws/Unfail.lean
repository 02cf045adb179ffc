import WalletToolbox.Laws.Provider
import WalletToolbox.Monitor.TaskUnfail

/-! # What TaskUnFail does

A request without a proof is given up again.
One with a proof is brought back with the transactions it notifies: each is live again, claims the
rows of its inputs, and its outputs are set to what the chain reports. -/

namespace WalletToolbox.Monitor

open WalletToolbox.Lib WalletToolbox.Storage
open WalletToolbox.Lib.Prog hiding pure exec

variable {sdk : Sdk} {services : Services} {s : Store} {E : Store → Prop}

/-! ## The rewritings -/

/-- The one row for the outpoint of an input. -/
def inputRow (d : Tables) (userId : Option Nat) (input : TxInput) : Option Output :=
  match input.sourceTxid with
  | none => none
  | some source =>
    match d.outputs.find fun o =>
        ofUser userId o && o.txid == some source && o.vout == input.sourceOutputIndex with
    | [o] => some o
    | _ => none

/-- What a claim writes. -/
def claimedBy (id : Nat) : OutputPartial :=
  { spendable := some false, spentBy := some id }

/-- The row of an input is claimed; a claim by a transaction that is not there is refused. -/
def reclaim (userId : Option Nat) (id : Nat) (d : Tables) (input : TxInput) : Tables :=
  match inputRow d userId input with
  | none => d
  | some o =>
    if id = 0 ∨ d.transactions.exists? (·.transactionId == id) = true then
      ((Stmt.updateOutput o.outputId (claimedBy id)).apply d).2
    else d

/-- What the chain says about an output when the row says something else. -/
def reportedUse (services : Services) (d : Tables) (o : Output) : Option Bool :=
  match validatedScript d o with
  | none => none
  | some script =>
    if script.isEmpty then none
    else
      match services.isUtxo script (o.txid.getD "") o.vout with
      | .ok isUtxo => if isUtxo != o.spendable then some isUtxo else none
      | .error _ => none

/-- An output set to what the chain says. -/
def reviewed (services : Services) (d : Tables) (r o : Output) : Output :=
  match reportedUse services d r with
  | none => o
  | some isUtxo => ({ spendable := some isUtxo } : OutputPartial).apply d.now o

/-- The outputs of a transaction are set to what the chain says. -/
def reviewOwn (services : Services) (userId : Option Nat) (id : Nat) (d : Tables) : Tables :=
  { d with
    outputs := d.outputs.update (fun o => ofUser userId o && o.transactionId == id)
      (fun o => reviewed services d o o) fun o => by unfold reviewed; split <;> rfl }

/-- One transaction of a proven request is brought back. -/
def bringBack (sdk : Sdk) (services : Services) (rawTx : Bytes) (d : Tables) (id : Nat) : Tables :=
  let d₁ := ((Stmt.updateTransaction id { status := some .unproven }).apply d).2
  let userId := (d₁.transactions.first (·.transactionId == id)).map (·.userId)
  if rawTx.isEmpty then d₁
  else
    match sdk.parseTx rawTx with
    | .error _ => d₁
    | .ok parsed => reviewOwn services userId id (parsed.inputs.foldl (reclaim userId id) d₁)

/-- The effect of a review. -/
def unfailEffect (sdk : Sdk) (services : Services) (d : Tables) (req : ProvenTxReq) : Tables :=
  if (services.getMerklePath req.txid).merklePath.isSome then
    (notifyIds req).foldl (bringBack sdk services req.rawTx)
      ((Stmt.updateProvenTxReq req.provenTxReqId { status := some .unmined }).apply d).2
  else ((Stmt.updateProvenTxReq req.provenTxReqId { status := some .invalid }).apply d).2

/-! ## The rows -/

/-- What a review leaves of an output row besides its use. -/
structure SameOutput (o o' : Output) : Prop where
  outputId : o'.outputId = o.outputId
  userId : o'.userId = o.userId
  transactionId : o'.transactionId = o.transactionId
  txid : o'.txid = o.txid
  vout : o'.vout = o.vout

theorem SameOutput.refl (o : Output) : SameOutput o o := ⟨rfl, rfl, rfl, rfl, rfl⟩

theorem SameOutput.trans {o₁ o₂ o₃ : Output} (h : SameOutput o₁ o₂) (h' : SameOutput o₂ o₃) :
    SameOutput o₁ o₃ :=
  ⟨h'.outputId.trans h.outputId, h'.userId.trans h.userId, h'.transactionId.trans h.transactionId,
    h'.txid.trans h.txid, h'.vout.trans h.vout⟩

/-- What a review does to a transaction: nothing, or it is notified and live again. -/
def BroughtBack (ids : List Nat) (t t' : Transaction) : Prop :=
  t' = t ∨ (t.transactionId ∈ ids ∧
    ∃ stamp, t' = { t with status := .unproven, updatedAt := stamp })

section Rows

variable {d : Tables} {userId : Option Nat} {id : Nat} {req : ProvenTxReq}

theorem inputRow_mem {input : TxInput} {o : Output} (h : inputRow d userId input = some o) :
    o ∈ d.outputs ∧ ofUser userId o = true ∧ o.vout = input.sourceOutputIndex ∧
      ∃ source, input.sourceTxid = some source ∧ o.txid = some source := by
  unfold inputRow at h
  split at h
  · cases h
  · rename_i source hsource
    split at h
    · rename_i row hrow
      obtain rfl : row = o := Option.some.inj h
      obtain ⟨ho, hsel⟩ := Table.mem_find.mp (hrow ▸ List.mem_singleton.mpr rfl)
      simp only [Bool.and_eq_true, beq_iff_eq] at hsel
      exact ⟨ho, hsel.1.1, hsel.2, source, hsource, hsel.1.2⟩
    · cases h

theorem mem_reviewOwn {o : Output} :
    o ∈ (reviewOwn services userId id d).outputs ↔ ∃ o₀ ∈ d.outputs, o =
      if ofUser userId o₀ && o₀.transactionId == id then reviewed services d o₀ o₀ else o₀ := by
  simp only [reviewOwn]
  exact Table.mem_update

/-- The invariant rule for a review: what the update of the request, the return of a transaction,
the claim of an input by its transaction and the review of outputs keep, the whole keeps. -/
theorem unfailEffect_inv {I : Tables → Prop}
    (hreq : ∀ d status, I d →
      I ((Stmt.updateProvenTxReq req.provenTxReqId { status := some status }).apply d).2)
    (hback : ∀ d, ∀ id ∈ notifyIds req, I d →
      I ((Stmt.updateTransaction id { status := some .unproven }).apply d).2)
    (hclaim : ∀ d, ∀ id ∈ notifyIds req, ∀ o ∈ d.outputs,
      (id = 0 ∨ ∃ t ∈ d.transactions, t.transactionId = id ∧ t.userId = o.userId) → I d →
      I ((Stmt.updateOutput o.outputId (claimedBy id)).apply d).2)
    (hreview : ∀ d userId, ∀ id ∈ notifyIds req, I d → I (reviewOwn services userId id d))
    (hd : I d) : I (unfailEffect sdk services d req) := by
  have hinputs : ∀ id ∈ notifyIds req, ∀ (inputs : List TxInput) (userId : Option Nat) (d : Tables),
      userId = (d.transactions.first (·.transactionId == id)).map (·.userId) → I d →
      I (inputs.foldl (reclaim userId id) d) := by
    intro id hid inputs userId
    induction inputs with
    | nil => exact fun d _ h => h
    | cons input inputs ih =>
      intro d huser h
      unfold List.foldl reclaim
      cases hrow : inputRow d userId input with
      | none => exact ih d huser h
      | some o =>
        simp only
        split
        · rename_i hthere
          obtain ⟨ho, hof, -⟩ := inputRow_mem hrow
          refine ih _ huser (hclaim d id hid o ho ?_ h)
          refine hthere.imp_right fun hthere => ?_
          -- the transaction is there, so the row was looked up for its user
          cases hfirst : d.transactions.first (·.transactionId == id) with
          | none =>
            rw [Table.first_none.mp hfirst |> Table.exists?_eq_false.mpr] at hthere
            cases hthere
          | some t =>
            obtain ⟨ht, htid⟩ := Table.first_some hfirst
            rw [huser, hfirst] at hof
            exact ⟨t, ht, by simpa using htid, by simpa [ofUser] using (eq_comm.mp (beq_iff_eq.mp hof))⟩
        · exact ih d huser h
  have hone : ∀ id ∈ notifyIds req, ∀ d, I d → I (bringBack sdk services req.rawTx d id) := by
    intro id hid d h
    have h₁ := hback d id hid h
    unfold bringBack
    simp only
    split
    · exact h₁
    · split
      · exact h₁
      · exact hreview _ _ id hid (hinputs id hid _ _ _ rfl h₁)
  have hall : ∀ (ids : List Nat), (∀ id ∈ ids, id ∈ notifyIds req) → ∀ d, I d →
      I (ids.foldl (bringBack sdk services req.rawTx) d) := by
    intro ids
    induction ids with
    | nil => exact fun _ _ h => h
    | cons id ids ih =>
      intro hids d h
      exact ih (fun i hi => hids i (by simp [hi])) _ (hone id (hids id (by simp)) d h)
  unfold unfailEffect
  split
  · exact hall _ (fun _ h => h) _ (hreq d _ hd)
  · exact hreq d _ hd

/-- What becomes of the rows in a review, their use apart. -/
structure UnfailedRows (ids : List Nat) (d d' : Tables) : Prop where
  provenTxs : d'.provenTxs = d.provenTxs
  transactions : ∀ t' ∈ d'.transactions, ∃ t ∈ d.transactions, BroughtBack ids t t'
  keptTransactions : ∀ t ∈ d.transactions, ∃ t' ∈ d'.transactions, BroughtBack ids t t'
  outputs : ∀ o' ∈ d'.outputs, ∃ o ∈ d.outputs, SameOutput o o'

theorem reviewed_same (o : Output) : SameOutput o (reviewed services d o o) := by
  unfold reviewed
  split
  · exact SameOutput.refl o
  · exact ⟨rfl, rfl, rfl, rfl, rfl⟩

theorem unfailEffect_rows :
    UnfailedRows (notifyIds req) d (unfailEffect sdk services d req) := by
  refine unfailEffect_inv (fun d₁ status h => ⟨h.provenTxs, h.transactions, h.keptTransactions, h.outputs⟩)
    (fun d₁ id hid h => ?_) (fun d₁ id _ o _ _ h => ?_) (fun d₁ userId id _ h => ?_)
    ⟨rfl, fun t ht => ⟨t, ht, .inl rfl⟩, fun t ht => ⟨t, ht, .inl rfl⟩,
      fun o ho => ⟨o, ho, SameOutput.refl o⟩⟩
  · have hstep : ∀ t t₁, BroughtBack (notifyIds req) t t₁ → BroughtBack (notifyIds req) t
        (if t₁.transactionId = id then
          ({ status := some .unproven } : TransactionPartial).apply d₁.now t₁ else t₁) := by
      intro t t₁ hbt
      split
      · rename_i hkey
        rcases hbt with rfl | ⟨hmem, stamp, rfl⟩
        · exact .inr ⟨hkey ▸ hid, _, rfl⟩
        · exact .inr ⟨hmem, _, rfl⟩
      · exact hbt
    refine ⟨h.provenTxs, fun t' ht' => ?_, fun t ht => ?_, h.outputs⟩
    · obtain ⟨t₁, h₁, rfl⟩ := mem_updateTransaction.mp ht'
      obtain ⟨t, ht, hbt⟩ := h.transactions t₁ h₁
      exact ⟨t, ht, hstep t t₁ hbt⟩
    · obtain ⟨t₁, h₁, hbt⟩ := h.keptTransactions t ht
      exact ⟨_, mem_updateTransaction.mpr ⟨t₁, h₁, rfl⟩, hstep t t₁ hbt⟩
  · refine ⟨h.provenTxs, h.transactions, h.keptTransactions, fun o' ho' => ?_⟩
    obtain ⟨o₁, h₁, rfl⟩ := mem_updateOutput.mp ho'
    obtain ⟨o₀, h₀, hsame⟩ := h.outputs o₁ h₁
    refine ⟨o₀, h₀, ?_⟩
    split
    · exact hsame.trans ⟨rfl, rfl, rfl, rfl, rfl⟩
    · exact hsame
  · refine ⟨h.provenTxs, h.transactions, h.keptTransactions, fun o' ho' => ?_⟩
    obtain ⟨o₁, h₁, rfl⟩ := mem_reviewOwn.mp ho'
    obtain ⟨o₀, h₀, hsame⟩ := h.outputs o₁ h₁
    refine ⟨o₀, h₀, ?_⟩
    split
    · exact hsame.trans (reviewed_same o₁)
    · exact hsame

end Rows

/-! ## The programs -/

/-- A loop whose turns each have one effect has their composition as its effect. -/
theorem wp_forM_effect {γ : Type} {xs : List γ} {f : γ → StorageProg Unit}
    {effect : Tables → γ → Tables} {Q : Unit → Store → Prop}
    (hf : ∀ x (s : Store) (Q : Unit → Store → Prop),
      (∀ s' : Store, s'.toTables = effect s.toTables x → Q () s') → wp Stmt.exec (f x) Q E s)
    (h : ∀ s' : Store, s'.toTables = xs.foldl effect s.toTables → Q () s') :
    wp Stmt.exec (forM xs f) Q E s := by
  induction xs generalizing s with
  | nil => exact h s rfl
  | cons x xs ih =>
    rw [List.forM_cons, wp_bind]
    refine hf x s _ fun s₁ h₁ => ih fun s' hs' => h s' ?_
    rw [hs', h₁, List.foldl_cons]

theorem claimedBy_spentBy {id now i : Nat} {o : Output}
    (h : i ∈ ((claimedBy id).apply now o).spentBy) : i = id ∧ id ≠ 0 := by
  cases id with
  | zero => simp [claimedBy, OutputPartial.apply, setId] at h
  | succ n =>
    simp only [claimedBy, OutputPartial.apply, setId, Option.mem_def] at h
    exact ⟨(Option.some.inj h).symm, Nat.succ_ne_zero n⟩

/-- The engine executes a claim by a transaction that is there. -/
theorem exec_claimOutput {id : Nat} (outputId : Nat)
    (h : id = 0 ∨ ∃ t ∈ s.transactions, t.transactionId = id) :
    ∃ n, ∃ s' : Store, (Stmt.updateOutput outputId (claimedBy id)).exec s = .ok (n, s') := by
  have hforeign : ((Stmt.updateOutput outputId (claimedBy id)).apply s.toTables).2.ForeignKeys := by
    refine foreign_outputs_update s.foreign (fun _ => rfl) (fun _ => rfl) (fun _ _ hi => hi)
      fun o i hi => ?_
    obtain ⟨rfl, hpos⟩ := claimedBy_spentBy hi
    obtain ⟨t, ht, hid⟩ := h.resolve_left hpos
    exact .inr ⟨t, ht, hid⟩
  have hkeys : ((Stmt.updateOutput outputId (claimedBy id)).apply s.toTables).2.UniqueKeys :=
    unique_outputs_update s.unique (fun _ => rfl) (fun _ => rfl) fun _ => rfl
  exact ⟨_, _, exec_of_constraints hforeign hkeys⟩

/-- The engine refuses a claim by a transaction that is not there. -/
theorem exec_claimOutput_refused {o : Output} {id n : Nat} {s' : Store} (ho : o ∈ s.outputs)
    (hid : id ≠ 0) (hnone : ∀ t ∈ s.transactions, t.transactionId ≠ id) :
    (Stmt.updateOutput o.outputId (claimedBy id)).exec s ≠ .ok (n, s') := by
  intro h
  have hout : (claimedBy id).apply s.now o ∈ s'.outputs := by
    rw [(exec_eq h).2, mem_updateOutput]
    exact ⟨o, ho, by rw [if_pos rfl]⟩
  have hspent : id ∈ ((claimedBy id).apply s.now o).spentBy := by
    cases id with
    | zero => exact absurd rfl hid
    | succ n => rfl
  obtain ⟨t, ht, hkey⟩ := s'.foreign.outputSpentBy _ hout id hspent
  rw [exec_transactions h nofun] at ht
  exact hnone t ht hkey

theorem wp_reclaimInput {userId : Option Nat} {id : Nat} {input : TxInput}
    {Q : Unit → Store → Prop}
    (h : ∀ s' : Store, s'.toTables = reclaim userId id s.toTables input → Q () s') :
    wp Stmt.exec (reclaimInput userId id input) Q E s := by
  unfold reclaimInput
  unfold reclaim inputRow at h
  cases hsource : input.sourceTxid with
  | none =>
    simp only [hsource] at h
    exact h s rfl
  | some source =>
    simp only [hsource] at h
    rw [wp_bind, wp_ask]
    match hrows : s.outputs.find fun o =>
        ofUser userId o && o.txid == some source && o.vout == input.sourceOutputIndex with
    | [] =>
      simp only [hrows] at h
      exact h s rfl
    | _ :: _ :: _ =>
      simp only [hrows] at h
      exact h s rfl
    | [o] =>
      simp only [hrows] at h ⊢
      have ho : o ∈ s.outputs := (Table.mem_find.mp (hrows ▸ List.mem_singleton.mpr rfl)).1
      refine wp_ignore ?_
      by_cases hthere : id = 0 ∨ s.transactions.exists? (·.transactionId == id) = true
      · rw [if_pos hthere] at h
        have hthere : id = 0 ∨ ∃ t ∈ s.transactions, t.transactionId = id := by
          simpa [Table.exists?_eq_true] using hthere
        obtain ⟨n, s', hexec⟩ := exec_claimOutput o.outputId hthere
        refine wp_exec (fun n s' hs' => h s' (exec_eq hs').2) fun e he => ?_
        exact absurd (he.symm.trans hexec) nofun
      · rw [if_neg hthere] at h
        have hnone : id ≠ 0 ∧ ∀ t ∈ s.transactions, t.transactionId ≠ id := by
          simpa [Table.exists?_eq_true] using hthere
        exact wp_exec (fun n s' hs' => absurd hs' (exec_claimOutput_refused ho hnone.1 hnone.2))
          fun _ _ => h s rfl

/-- What reviewing one output does. -/
def review (services : Services) (d : Tables) (o : Output) : Tables :=
  match reportedUse services d o with
  | none => d
  | some isUtxo => ((Stmt.updateOutput o.outputId { spendable := some isUtxo }).apply d).2

theorem wp_reviewOutput {o : Output} {Q : Unit → Store → Prop}
    (h : ∀ s' : Store, s'.toTables = review services s.toTables o → Q () s') :
    wp Stmt.exec (reviewOutput services o) Q E s := by
  unfold reviewOutput
  unfold review reportedUse at h
  rw [wp_bind, wp_ask]
  cases hscript : validatedScript s.toTables o with
  | none =>
    simp only [hscript] at h
    exact h s rfl
  | some script =>
    simp only [hscript] at h ⊢
    split
    · rename_i hempty
      simp only [hempty, if_true] at h
      exact h s rfl
    · rename_i hempty
      simp only [hempty, if_false, Bool.false_eq_true] at h
      cases hanswer : services.isUtxo script (o.txid.getD "") o.vout with
      | error e =>
        simp only [hanswer] at h
        exact h s rfl
      | ok isUtxo =>
        simp only [hanswer] at h ⊢
        split
        · rename_i hdiffers
          simp only [hdiffers, if_true] at h
          exact wp_ignore_plain (by exact ⟨rfl, .inr (.inl rfl)⟩) h
        · rename_i hdiffers
          simp only [hdiffers, if_false, Bool.false_eq_true] at h
          exact h s rfl

theorem validatedScript_outputs (d : Tables) (outputs : Table Output) (o : Output) :
    validatedScript { d with outputs } o = validatedScript d o := rfl

/-- Reviewing the outputs one after another reviews them at once. -/
theorem foldl_review (d : Tables) (p : Output → Bool) :
    (d.outputs.find p).foldl (review services) d =
      { d with
        outputs := d.outputs.update p (fun o => reviewed services d o o) fun o => by
          unfold reviewed; split <;> rfl } := by
  have hkey : ∀ r o, key (reviewed services d r o) = key o := fun r o => by
    unfold reviewed
    split <;> rfl
  have hfold : ∀ (xs : List Output) (t : Table Output),
      xs.foldl (review services) { d with outputs := t } =
        { d with
          outputs := xs.foldl (fun t r => t.update (fun x => key x == key r)
            (reviewed services d r) (hkey r)) t } := by
    intro xs
    induction xs with
    | nil => exact fun _ => rfl
    | cons x xs ih =>
      intro t
      rw [List.foldl_cons, List.foldl_cons, ← ih]
      congr 1
      have hreport : reportedUse services { d with outputs := t } x = reportedUse services d x := by
        unfold reportedUse
        rw [validatedScript_outputs]
      unfold review
      rw [hreport]
      cases hx : reportedUse services d x with
      | none =>
        refine congrArg (fun t => { d with outputs := t }) (Table.update_none fun r _ _ => ?_).symm
        simp only [reviewed, hx]
      | some isUtxo =>
        refine congrArg (fun t => { d with outputs := t }) (Table.update_congr fun r _ => ?_)
        simp only [reviewed, hx]
        rfl
  rw [show d = { d with outputs := d.outputs } from rfl, hfold]
  exact congrArg (fun t => { d with outputs := t }) (Table.foldl_update_own hkey)

theorem wp_unfailTransaction {rawTx : Bytes} {id : Nat} {Q : Unit → Store → Prop}
    (h : ∀ s' : Store, s'.toTables = bringBack sdk services rawTx s.toTables id → Q () s') :
    wp Stmt.exec (unfailTransaction sdk services rawTx id) Q E s := by
  unfold unfailTransaction
  unfold bringBack at h
  rw [wp_bind]
  refine wp_ignore_plain (by exact rfl) fun s₁ h₁ => ?_
  rw [wp_bind, wp_ask]
  rw [← h₁] at h
  simp only at h
  split
  · rename_i hempty
    rw [if_pos hempty] at h
    exact h s₁ rfl
  · rename_i hempty
    rw [if_neg hempty] at h
    cases hparse : sdk.parseTx rawTx with
    | error e =>
      simp only [hparse] at h
      exact h s₁ rfl
    | ok parsed =>
      simp only [hparse] at h ⊢
      rw [wp_bind]
      refine wp_forM_effect (fun input s Q hQ => wp_reclaimInput hQ) fun s₂ h₂ => ?_
      rw [wp_bind, wp_ask]
      refine wp_forM_effect (fun o s Q hQ => wp_reviewOutput hQ) fun s' hs' => h s' ?_
      rw [hs', foldl_review, ← h₂]
      rfl

theorem wp_unfailReq {req : ProvenTxReq} {Q : Store → Prop}
    (h : ∀ s' : Store, s'.toTables = unfailEffect sdk services s.toTables req → Q s') :
    wp Stmt.exec (unfailReq sdk services req) (fun _ => Q) E s := by
  unfold unfailReq
  unfold unfailEffect at h
  split
  · rename_i hproven
    rw [if_pos hproven] at h
    rw [wp_bind]
    refine wp_ignore_plain (by exact rfl) fun s₁ h₁ => ?_
    refine wp_forM_effect (fun id s Q hQ => wp_unfailTransaction hQ) fun s' hs' => h s' ?_
    rw [hs', h₁]
  · rename_i hproven
    rw [if_neg hproven] at h
    exact wp_ignore_plain (by exact rfl) h

end WalletToolbox.Monitor
