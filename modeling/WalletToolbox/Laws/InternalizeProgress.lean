import WalletToolbox.Laws.InternalizeAction
import WalletToolbox.Sample

/-! # internalizeAction and completed transactions

When a call that succeeds keeps every completed transaction completed, and leaves the row of its
subject completed only with the proof of its txid.
The status that a merge writes follows the BEEF at hand and not what the store knows, so the
answer depends on the row the user already holds. -/

namespace WalletToolbox.Storage

open WalletToolbox.Lib
open WalletToolbox.Lib.Prog hiding pure exec

/-- The proof that a transaction row links to is the stored proof of its txid. -/
def NamesProof (s : Store) (t : Transaction) : Prop :=
  ∃ p ∈ s.provenTxs, t.provenTxId = some p.provenTxId ∧ t.txid = some p.txid

/-- Completed transactions stay completed under their proof, and the user's row for the txid is
completed only under the proof of the txid. -/
structure KeepsProgress (s s' : Store) (userId : Nat) (txid : String) : Prop where
  kept : ∀ t ∈ s.transactions, t.status = .completed → t.provenTxId.isSome = true →
    ∃ t' ∈ s'.transactions, t'.transactionId = t.transactionId ∧ t'.status = .completed ∧
      t'.provenTxId = t.provenTxId
  proven : ∀ t ∈ s'.transactions, t.userId = userId → t.txid = some txid →
    t.status = .completed → NamesProof s' t

/-- The row `e` that the user holds for the subject is moved backwards, or left completed without
the proof of its txid, by a call with these specifications. -/
def MovesBack (s : Store) (userId : Nat) (subject : Subject) (specs : List InternalizeOutput)
    (e : Transaction) : Prop :=
  if balanceChange s userId subject specs ≠ 0 then
    if subject.beefTx.hasProof then ¬NamesProof s e
    else e.status = .completed ∧ e.provenTxId.isSome = true
  else e.status = .completed ∧ ¬NamesProof s e

/-- The effect of a call on transactions and proofs. -/
structure Effect (c : Internalizing) (s s' : Store) : Prop where
  grown : ∀ p ∈ s.provenTxs, p ∈ s'.provenTxs
  merged : ∀ e, c.existing = some e → ∃ stamp, ∀ t, t ∈ s'.transactions ↔
    ∃ t₀ ∈ s.transactions, t = if t₀.transactionId = e.transactionId ∧ c.satoshis ≠ 0
      then { t₀ with status := c.txStatus, updatedAt := stamp } else t₀
  inserted : c.existing = none → ∃ new : Transaction,
    (∀ t, t ∈ s'.transactions ↔ t ∈ s.transactions ∨ t = new) ∧ new.status = c.txStatus ∧
      new.txid = some c.subject.txid ∧ (c.hasProof = true → NamesProof s' new)

variable {sdk : Sdk} {tracker : ChainTracker} {s : Store}

theorem internalizeStmt_frame {c : Internalizing} {id : Nat} {w : Stmt}
    (hw : InternalizeStmt sdk c id w) : w.target ≠ .transactions ∧ w.target ≠ .provenTxs := by
  cases w with
  | insertOutput r => exact ⟨nofun, nofun⟩
  | updateOutput id p => exact ⟨nofun, nofun⟩
  | insertProvenTxReq r => exact ⟨nofun, nofun⟩
  | _ => exact ⟨hw.1, hw.2.2.1⟩

theorem storesProof_grown {ab : Beef} {w : Stmt} (hw : StoresProof ab w) {s s' : Store} {n : Nat}
    (h : w.exec s = .ok (n, s')) :
    s'.transactions = s.transactions ∧ ∀ p ∈ s.provenTxs, p ∈ s'.provenTxs := by
  cases w with
  | insertProvenTx r =>
    refine ⟨exec_transactions h nofun, fun p hp => ?_⟩
    rw [(exec_eq h).2]
    exact mem_insertProvenTx.mpr (.inl hp)
  | _ => exact hw.elim

theorem wp_subjectTransaction_effect {c : Internalizing} {s₀ : Store} {id : Option Nat}
    (htx : s.transactions = s₀.transactions) (hgrown : ∀ p ∈ s₀.provenTxs, p ∈ s.provenTxs)
    (hid : SubjectProven c id s) :
    wp Stmt.exec (subjectTransaction sdk c id) (fun _ => Effect c s₀) (fun _ => True) s := by
  unfold subjectTransaction
  cases hex : c.existing with
  | some e =>
    by_cases hsat : c.satoshis = 0
    · simp only [hsat, ne_eq, not_true_eq_false, if_false]
      refine ⟨hgrown, fun e' he' => ⟨0, fun t => ?_⟩, fun h => absurd (hex.symm.trans h) (by rintro ⟨⟩)⟩
      simp only [hsat, ne_eq, not_true_eq_false, and_false, if_false, htx]
      exact ⟨fun h => ⟨t, h, rfl⟩, by rintro ⟨t₀, h, rfl⟩; exact h⟩
    · simp only [hsat, ne_eq, not_false_eq_true, if_true, wp_bind]
      refine wp_exec'_plain (by exact rfl) fun s' hs' => ?_
      rw [wp_pure]
      refine ⟨fun p hp => ?_, fun e' he' => ⟨toSeconds s.now, fun t => ?_⟩,
        fun h => absurd (hex.symm.trans h) (by rintro ⟨⟩)⟩
      · rw [hs']
        exact hgrown p hp
      · obtain rfl : e = e' := Option.some.inj (hex.symm.trans he')
        rw [hs', mem_updateTransaction, htx]
        simp only [hsat, ne_eq, not_false_eq_true, and_true]
        rfl
  | none =>
    simp only [wp_bind, wp_utcNow]
    refine wp_exec (fun n s' h => ?_) fun _ _ => trivial
    have hs' := (exec_eq h).2
    have hproofs : s'.provenTxs = s.provenTxs := exec_provenTxs h (by rintro ⟨⟩)
    refine ⟨fun p hp => hproofs ▸ hgrown p hp, fun e he => absurd (hex.symm.trans he) (by rintro ⟨⟩),
      fun _ => ⟨(subjectRow sdk c id s.now).stored (s.transactions.lastId + 1), fun t => ?_, ?_⟩⟩
    · rw [hs', mem_insertTransaction, htx]
    · refine ⟨rfl, rfl, fun hproof => ?_⟩
      simp only [SubjectProven, hproof, if_true] at hid
      obtain ⟨p, hp, hpid, hptxid⟩ := hid
      exact ⟨p, hproofs ▸ hp, hpid, congrArg some hptxid.symm⟩

/-- A call that succeeds has its effect on the tables it found. -/
theorem storageInternalizeAction_effect {userId : Nat} {args : StorageInternalizeActionArgs}
    {r : StorageInternalizeActionResult} {s' : Store}
    (h : (storageInternalizeAction sdk tracker userId args).run Stmt.exec s = (.ok r, s')) :
    ∃ c, Prepared sdk tracker s userId args c ∧ Effect c s s' := by
  suffices hwp : wp Stmt.exec (storageInternalizeAction sdk tracker userId args)
      (fun _ s' => ∃ c, Prepared sdk tracker s userId args c ∧ Effect c s s') (fun _ => True) s from
    wp_ok hwp h
  unfold storageInternalizeAction
  rw [wp_bind]
  refine wp_mono wp_prepareInternalize ?_ fun _ _ => trivial
  rintro c s₁ ⟨hprep, hcore⟩
  rw [wp_bind, wp_atomically]
  have hbody := wp_internalizeBody (s := s₁)
    (A := fun s₂ => s₂.transactions = s.transactions ∧ ∀ p ∈ s.provenTxs, p ∈ s₂.provenTxs)
    (C := fun _ s₂ => Effect c s s₂) hprep
    (fun w s₂ n s₃ hw hA hexec =>
      have hg := storesProof_grown hw hexec
      ⟨hg.1.trans hA.1, fun p hp => hg.2 p (hA.2 p hp)⟩)
    (fun id s₂ hA hid => wp_subjectTransaction_effect hA.1 hA.2 hid)
    (fun id w s₂ n s₃ hw hC hexec => by
      have hframe := internalizeStmt_frame hw
      have htx := exec_transactions hexec hframe.1
      have hproofs := exec_provenTxs hexec hframe.2
      exact ⟨by simpa only [hproofs] using hC.grown, by simpa only [htx] using hC.merged,
        by simpa only [NamesProof, htx, hproofs] using hC.inserted⟩)
    ⟨hcore.transactions, by simp only [hcore.provenTxs]; exact fun _ hp => hp⟩
  refine wp_mono hbody (fun _ s₂ h₂ => ?_) fun _ _ => trivial
  obtain ⟨id, heffect⟩ := h₂
  exact ⟨c, hprep, heffect⟩

/-- Storing further proofs does not change what a stored row names. -/
theorem namesProof_grown {s' : Store} (hgrown : ∀ p ∈ s.provenTxs, p ∈ s'.provenTxs)
    {e : Transaction} (he : e ∈ s.transactions) : NamesProof s' e ↔ NamesProof s e := by
  constructor
  · rintro ⟨p, hp, hid, htxid⟩
    obtain ⟨q, hq, hkey⟩ := s.foreign.transactionProvenTx e he p.provenTxId hid
    obtain rfl : q = p := Table.eq_of_key_eq (hgrown q hq) hp hkey
    exact ⟨q, hq, hid, htxid⟩
  · rintro ⟨p, hp, hnames⟩
    exact ⟨p, hgrown p hp, hnames⟩

/-- Without a row to merge with nothing is moved back. -/
theorem Effect.progress_inserted {c : Internalizing} {s' : Store} {userId : Nat}
    (heffect : Effect c s s') (hnone : c.existing = none)
    (habsent : ∀ t ∈ s.transactions, t.userId = userId → t.txid ≠ some c.subject.txid) :
    KeepsProgress s s' userId c.subject.txid := by
  obtain ⟨new, hmem, hstatus, -, hnames⟩ := heffect.inserted hnone
  refine ⟨fun t ht hcompleted _ => ⟨t, (hmem t).mpr (.inl ht), rfl, hcompleted, rfl⟩, ?_⟩
  intro t ht huser htxid hcompleted
  rcases (hmem t).mp ht with hold | rfl
  · exact absurd htxid (habsent t hold huser)
  · refine hnames ?_
    rw [hstatus, Internalizing.txStatus] at hcompleted
    by_contra hproof
    simp [hproof] at hcompleted

/-- With a row `e` to merge with, the status that is written to `e` decides. -/
theorem Effect.progress_merged {c : Internalizing} {s' : Store} {userId : Nat} {e : Transaction}
    (heffect : Effect c s s') (hsome : c.existing = some e) (he : e ∈ s.transactions)
    (huser : e.userId = userId) (htxid : e.txid = some c.subject.txid)
    (honly : ∀ t ∈ s.transactions, t.userId = userId → t.txid = some c.subject.txid → t = e) :
    KeepsProgress s s' userId c.subject.txid ↔
      if c.satoshis ≠ 0 then
        if c.hasProof then NamesProof s e else ¬(e.status = .completed ∧ e.provenTxId.isSome = true)
      else e.status = .completed → NamesProof s e := by
  obtain ⟨stamp, hmem⟩ := heffect.merged e hsome
  have hnames := namesProof_grown heffect.grown he
  by_cases hsat : c.satoshis = 0
  · simp only [hsat, ne_eq, not_true_eq_false, and_false, if_false] at hmem ⊢
    have hsame : ∀ t, t ∈ s'.transactions ↔ t ∈ s.transactions := fun t =>
      (hmem t).trans ⟨by rintro ⟨t₀, h, rfl⟩; exact h, fun h => ⟨t, h, rfl⟩⟩
    constructor
    · intro h hcompleted
      exact hnames.mp (h.proven e ((hsame e).mpr he) huser htxid hcompleted)
    · intro h
      refine ⟨fun t ht hcompleted _ => ⟨t, (hsame t).mpr ht, rfl, hcompleted, rfl⟩, ?_⟩
      intro t ht hu htx hcompleted
      obtain rfl := honly t ((hsame t).mp ht) hu htx
      exact hnames.mpr (h hcompleted)
  · simp only [hsat, ne_eq, not_false_eq_true, and_true, if_true] at hmem ⊢
    -- the row `e` as the call leaves it
    have he' : { e with status := c.txStatus, updatedAt := stamp } ∈ s'.transactions :=
      (hmem _).mpr ⟨e, he, by simp⟩
    have hcases : ∀ t ∈ s'.transactions,
        t = { e with status := c.txStatus, updatedAt := stamp } ∨
          (t ∈ s.transactions ∧ t.transactionId ≠ e.transactionId) := by
      intro t ht
      obtain ⟨t₀, h₀, rfl⟩ := (hmem t).mp ht
      by_cases hid : t₀.transactionId = e.transactionId
      · obtain rfl : t₀ = e := Table.eq_of_key_eq h₀ he hid
        exact .inl (if_pos rfl)
      · rw [if_neg hid]
        exact .inr ⟨h₀, hid⟩
    constructor
    · intro h
      cases hproof : c.hasProof with
      | true =>
        simp only [if_true]
        have hdone : c.txStatus = .completed := by simp [Internalizing.txStatus, hproof]
        have hproven := h.proven _ he' huser htxid hdone
        exact hnames.mp hproven
      | false =>
        rintro ⟨hcompleted, hlinked⟩
        obtain ⟨t, ht, hid, hstatus, -⟩ := h.kept e he hcompleted hlinked
        rcases hcases t ht with rfl | ⟨_, hne⟩
        · simp [Internalizing.txStatus, hproof] at hstatus
        · exact hne hid
    · intro h
      constructor
      · intro t ht hcompleted hlinked
        by_cases hid : t.transactionId = e.transactionId
        · obtain rfl : t = e := Table.eq_of_key_eq ht he hid
          cases hproof : c.hasProof with
          | true => exact ⟨_, he', rfl, by simp [Internalizing.txStatus, hproof], rfl⟩
          | false =>
            simp only [hproof] at h
            exact absurd ⟨hcompleted, hlinked⟩ h
        · exact ⟨t, (hmem t).mpr ⟨t, ht, by rw [if_neg hid]⟩, rfl, hcompleted, rfl⟩
      · intro t ht hu htx hcompleted
        rcases hcases t ht with rfl | ⟨hold, hne⟩
        · cases hproof : c.hasProof with
          | true =>
            simp only [hproof, if_true] at h
            exact hnames.mpr h
          | false => simp [Internalizing.txStatus, hproof] at hcompleted
        · exact absurd (congrArg Transaction.transactionId (honly t hold hu htx)) hne

/-- A call that succeeds keeps the progress of transactions exactly when it finds no row of the
user for its subject that it moves back. -/
theorem storageInternalizeAction_progress {userId : Nat} {args : StorageInternalizeActionArgs}
    {beef : Beef} {subject : Subject} {r : StorageInternalizeActionResult} {s' : Store}
    (hbeef : sdk.parseBeef args.tx = .ok beef) (hsubject : findSubject beef = .ok subject)
    (h : (storageInternalizeAction sdk tracker userId args).run Stmt.exec s = (.ok r, s')) :
    KeepsProgress s s' userId subject.txid ↔
      ∀ e ∈ s.transactions, e.userId = userId → e.txid = some subject.txid →
        ¬MovesBack s userId subject args.outputs e := by
  obtain ⟨c, hprep, heffect⟩ := storageInternalizeAction_effect h
  obtain rfl : c.beef = beef := Except.ok.inj (hprep.parsed.symm.trans hbeef)
  obtain rfl : c.subject = subject := Except.ok.inj (hprep.subject.symm.trans hsubject)
  have hheld : ∀ t ∈ s.transactions, t.userId = userId → t.txid = some c.subject.txid →
      c.existing = some t := fun t ht hu htx =>
    verifyOneOrNone_unique hprep.existing ht (by simp [hu, htx])
  cases hex : c.existing with
  | none =>
    have habsent : ∀ t ∈ s.transactions, t.userId = userId → t.txid ≠ some c.subject.txid :=
      fun t ht hu htx => absurd (hex.symm.trans (hheld t ht hu htx)) nofun
    exact ⟨fun _ e he hu htx => absurd htx (habsent e he hu),
      fun _ => heffect.progress_inserted hex habsent⟩
  | some e =>
    obtain ⟨he, hsel⟩ := Table.first_some ((verifyOneOrNone_first hprep.existing).symm.trans hex)
    obtain ⟨hu, htx⟩ : e.userId = userId ∧ e.txid = some c.subject.txid := by simpa using hsel
    have honly : ∀ t ∈ s.transactions, t.userId = userId → t.txid = some c.subject.txid → t = e :=
      fun t ht hut htxt => (Option.some.inj (hex.symm.trans (hheld t ht hut htxt))).symm
    rw [heffect.progress_merged hex he hu htx honly, hprep.satoshis (by rw [hex]; rfl)]
    have hone : (∀ e ∈ s.transactions, e.userId = userId → e.txid = some c.subject.txid →
        ¬MovesBack s userId c.subject args.outputs e) ↔
        ¬MovesBack s userId c.subject args.outputs e :=
      ⟨fun hall => hall e he hu htx, fun hno t ht hut htxt => honly t ht hut htxt ▸ hno⟩
    rw [hone, MovesBack, ← Internalizing.hasProof]
    by_cases hsat : balanceChange s userId c.subject args.outputs = 0
    · simp only [hsat, ne_eq, not_true_eq_false, if_false, not_and, not_not]
    · cases hproof : c.hasProof <;> simp [hsat]

/-! ## A payment that is internalized twice -/

/-- The payee takes the mined payment as change. -/
def takeAsChange : StorageInternalizeActionArgs :=
  { tx := Sample.minedAtomic, description := "payment", labels := []
    outputs := [.walletPayment 0 Sample.alice [1, 2, 3, 4] [5, 6, 7, 8]] }

/-- Later the payee moves the output to a basket, with the BEEF of the time before the block. -/
def moveToBasket : StorageInternalizeActionArgs :=
  { tx := Sample.pendingAtomic, description := "payment", labels := []
    outputs := [.basketInsertion 0 "savings" none []] }

/-- The payee holds the payment as completed, under its proof. -/
def minedStore : Store :=
  ((internalizeAction Sample.sdk Sample.tracker Sample.bob takeAsChange).run Stmt.exec .empty).2

theorem moveToBasket_isOk : ((storageInternalizeAction Sample.sdk Sample.tracker 1 moveToBasket).run
    Stmt.exec minedStore).1.isOk = true := by
  decide +kernel

/-- The second call succeeds and the completed payment is unproven again. -/
theorem moveToBasket_loses_completed : ∃ r s',
    (storageInternalizeAction Sample.sdk Sample.tracker 1 moveToBasket).run Stmt.exec minedStore =
      (.ok r, s') ∧ ¬KeepsProgress minedStore s' 1 Sample.paymentTxid := by
  obtain ⟨r, hrun⟩ := run_of_isOk moveToBasket_isOk
  refine ⟨r, _, hrun, fun h => ?_⟩
  have hbefore : ∃ t ∈ minedStore.transactions.rows,
      t.status = .completed ∧ t.provenTxId.isSome = true := by decide +kernel
  have hafter : ∀ t ∈ ((storageInternalizeAction Sample.sdk Sample.tracker 1 moveToBasket).run
      Stmt.exec minedStore).2.transactions.rows, t.status ≠ .completed := by decide +kernel
  obtain ⟨t, ht, hcompleted, hlinked⟩ := hbefore
  obtain ⟨t', ht', -, hstatus, -⟩ := h.kept t ht hcompleted hlinked
  exact hafter t' ht' hstatus

/-- The same with the BEEF of the mined payment. -/
def moveMined : StorageInternalizeActionArgs :=
  { moveToBasket with tx := Sample.minedAtomic }

theorem moveMined_isOk : ((storageInternalizeAction Sample.sdk Sample.tracker 1 moveMined).run
    Stmt.exec minedStore).1.isOk = true := by
  decide +kernel

theorem parseBeef_mined : Sample.sdk.parseBeef moveMined.tx = .ok Sample.minedBeef := by
  simp only [moveMined, Sample.sdk, Sample.parseBeef]
  rw [if_neg (by decide +kernel), if_neg (by decide +kernel), if_pos trivial]

theorem findSubject_mined : findSubject Sample.minedBeef =
    .ok ⟨Sample.paymentTxid, { Sample.paymentBeefTx with bumpIndex := some 0, inputTxids := [] },
      Sample.paymentTx⟩ := by
  with_unfolding_all rfl

/-- Then the payment stays completed. -/
theorem storageInternalizeAction_progress_moveMined : ∃ r s',
    (storageInternalizeAction Sample.sdk Sample.tracker 1 moveMined).run Stmt.exec minedStore =
      (.ok r, s') ∧ KeepsProgress minedStore s' 1 Sample.paymentTxid := by
  obtain ⟨r, hrun⟩ := run_of_isOk moveMined_isOk
  refine ⟨r, _, hrun, (storageInternalizeAction_progress parseBeef_mined findSubject_mined hrun).mpr ?_⟩
  have hnames : ∀ e ∈ minedStore.transactions.rows, ∃ p ∈ minedStore.provenTxs.rows,
      e.provenTxId = some p.provenTxId ∧ e.txid = some p.txid := by decide +kernel
  intro e he _ _
  unfold MovesBack
  split
  · exact not_not.mpr (hnames e he)
  · exact fun h => h.2 (hnames e he)

end WalletToolbox.Storage
