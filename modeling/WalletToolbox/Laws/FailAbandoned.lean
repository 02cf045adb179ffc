import WalletToolbox.Laws.Outcomes
import WalletToolbox.Monitor.TaskFailAbandoned

/-! # What a run of TaskFailAbandoned does

The run as a function of the tables, with the rows that its pages hold.
What it reads it has not touched before; what it releases are the outputs claimed by the rows it has
read that are old and have a txid. -/

namespace WalletToolbox.Monitor

open WalletToolbox.Lib WalletToolbox.Storage WalletToolbox.Signer
open WalletToolbox.Lib.Prog hiding pure exec

variable {s s' : Store} {d : Tables} {E : Store → Prop} {cutoff : Int}

/-! ## The run as a function -/

/-- What one row causes. -/
def failedTx (d : Tables) (tx : Transaction) : Tables :=
  match tx.txid.bind d.firstTx with
  | none => d
  | some _ => (d.setFirstStatus (tx.txid.getD "") .failed).releaseWhere
      (·.spentBy == some tx.transactionId)

/-- What the rows of one page cause. -/
def failedPage (cutoff : Int) (offset : Nat) (d : Tables) : Tables :=
  ((abandonedPage offset d).filter (aged cutoff)).foldl failedTx d

def failedPages (cutoff : Int) : Nat → Nat → Tables → Tables
  | 0, _, d => d
  | fuel + 1, offset, d =>
    if (abandonedPage offset d).length < 100 then failedPage cutoff offset d
    else failedPages cutoff fuel (offset + 100) (failedPage cutoff offset d)

/-- The rows of the pages that a run reads. -/
def pagesRead (cutoff : Int) : Nat → Nat → Tables → List Transaction
  | 0, _, _ => []
  | fuel + 1, offset, d =>
    abandonedPage offset d ++
      if (abandonedPage offset d).length < 100 then []
      else pagesRead cutoff fuel (offset + 100) (failedPage cutoff offset d)

theorem wp_failTx {tx : Transaction} {Q : Unit → Store → Prop}
    (h : ∀ s' : Store, s'.toTables = failedTx s.toTables tx → Q () s') :
    wp Stmt.exec (failTx tx) Q E s := by
  unfold failTx
  unfold failedTx at h
  cases htxid : tx.txid with
  | none =>
    rw [htxid] at h
    exact h s rfl
  | some txid =>
    rw [htxid] at h
    rw [wp_bind]
    refine wp_attempt (wp_setFirstStatus (fun hnone e => ?_) fun f hf s₁ h₁ => ?_)
    · refine h s ?_
      rw [Option.bind_some, hnone]
    · refine wp_ignore (wp_restoreConsumedInputs fun n s₂ h₂ => h s₂ ?_)
      rw [h₂, Option.bind_some, hf, h₁]
      rfl

theorem wp_failTxs {txs : List Transaction} {Q : Unit → Store → Prop}
    (h : ∀ s' : Store, s'.toTables = txs.foldl failedTx s.toTables → Q () s') :
    wp Stmt.exec (forM txs failTx) Q E s := by
  induction txs generalizing s with
  | nil => exact h s rfl
  | cons tx txs ih =>
    rw [List.forM_cons, wp_bind]
    refine wp_failTx fun s₁ h₁ => ih fun s' hs' => h s' ?_
    rw [hs', h₁, List.foldl_cons]

theorem wp_failPages {fuel offset : Nat} {Q : Unit → Store → Prop}
    (h : ∀ s' : Store, s'.toTables = failedPages cutoff fuel offset s.toTables → Q () s') :
    wp Stmt.exec (failPages cutoff fuel offset) Q E s := by
  induction fuel generalizing s offset with
  | zero => exact h s rfl
  | succ fuel ih =>
    unfold failPages
    unfold failedPages at h
    rw [wp_bind, wp_ask, wp_bind]
    refine wp_failTxs fun s₁ h₁ => ?_
    refine wp_ite (fun hlast => h s₁ ?_) fun hmore => ih fun s' hs' => h s' ?_
    · rw [if_pos hlast]
      exact h₁
    · rw [if_neg hmore, hs', h₁]
      rfl

/-- The cutoff of a run. -/
def cutoffOf (d : Tables) (abandonedMsecs : UInt64) : Int :=
  (d.now : Int) - asI64 abandonedMsecs.toNat

theorem wp_failAbandoned {abandonedMsecs : UInt64} {Q : Unit → Store → Prop}
    (h : ∀ s' : Store, s'.toTables = failedPages (cutoffOf s.toTables abandonedMsecs)
      (s.transactions.rows.length + 1) 0 s.toTables → Q () s') :
    wp Stmt.exec (failAbandoned abandonedMsecs) Q E s := by
  unfold failAbandoned
  rw [wp_bind, wp_utcNow, wp_bind, wp_ask]
  exact wp_failPages h

/-! ## The rows -/

theorem mem_failedTx_transactions {tx t' : Transaction} (h : t' ∈ (failedTx d tx).transactions) :
    ∃ t ∈ d.transactions, t' = t ∨ ∃ f stamp, tx.txid.bind d.firstTx = some f ∧
      t.transactionId = f.transactionId ∧ t' = { t with status := .failed, updatedAt := stamp } := by
  unfold failedTx at h
  split at h
  · exact ⟨t', h, .inl rfl⟩
  · rename_i f hf
    obtain ⟨txid, htxid, hfirst⟩ := Option.bind_eq_some_iff.mp hf
    rw [htxid, Option.getD_some] at h
    obtain ⟨t, ht, rfl⟩ := mem_setFirstStatus.mp h
    refine ⟨t, ht, ?_⟩
    split
    · rename_i hid
      rw [hfirst] at hid
      exact .inr ⟨f, _, hf, (beq_iff_eq.mp hid).symm, rfl⟩
    · exact .inl rfl

/-- A row that the query still selects was not touched. -/
theorem untouched_failedTx {tx t : Transaction} (h : t ∈ (failedTx d tx).transactions)
    (hstatus : abandonable t.status = true) : t ∈ d.transactions := by
  obtain ⟨t₀, ht₀, rfl | ⟨f, stamp, -, -, rfl⟩⟩ := mem_failedTx_transactions h
  · exact ht₀
  · cases hstatus

theorem untouched_failedTxs {txs : List Transaction} {t : Transaction}
    (h : t ∈ (txs.foldl failedTx d).transactions) (hstatus : abandonable t.status = true) :
    t ∈ d.transactions := by
  induction txs generalizing d with
  | nil => exact h
  | cons tx txs ih => exact untouched_failedTx (ih h) hstatus

theorem mem_abandonedPage {offset : Nat} {t : Transaction} (h : t ∈ abandonedPage offset d) :
    t ∈ d.transactions ∧ abandonable t.status = true :=
  Table.mem_find.mp (List.mem_of_mem_drop (List.mem_of_mem_take h))

/-- What a run reads are rows that it found, as it found them. -/
theorem mem_pagesRead {fuel offset : Nat} {t : Transaction}
    (h : t ∈ pagesRead cutoff fuel offset d) : t ∈ d.transactions ∧ abandonable t.status = true := by
  induction fuel generalizing d offset with
  | zero => cases h
  | succ fuel ih =>
    unfold pagesRead at h
    rcases List.mem_append.mp h with hpage | hrest
    · exact mem_abandonedPage hpage
    · split at hrest
      · cases hrest
      · obtain ⟨hmem, hstatus⟩ := ih hrest
        exact ⟨untouched_failedTxs hmem hstatus, hstatus⟩

/-! ## The outputs -/

/-- The output is spendable. -/
def Regained (d : Tables) (outputId : Nat) : Prop :=
  ∃ o ∈ d.outputs, o.outputId = outputId ∧ o.spendable = true

instance (d : Tables) (outputId : Nat) : Decidable (Regained d outputId) :=
  inferInstanceAs (Decidable (∃ o ∈ d.outputs, o.outputId = outputId ∧ o.spendable = true))

theorem mem_failedTx_outputs (tx : Transaction) {o : Output} (h : o ∈ d.outputs) :
    (if (tx.txid.bind d.firstTx).isSome && o.spentBy == some tx.transactionId then release d.now o
      else o) ∈ (failedTx d tx).outputs := by
  unfold failedTx
  split
  · rename_i hnone
    rw [hnone]
    exact h
  · rename_i f hf
    rw [hf, mem_releaseWhere, setFirstStatus_now, setFirstStatus_outputs]
    exact ⟨o, h, by simp⟩

theorem Regained.failedTx {tx : Transaction} {i : Nat} (h : Regained d i) :
    Regained (failedTx d tx) i := by
  obtain ⟨o, ho, hid, hspendable⟩ := h
  refine ⟨_, mem_failedTx_outputs tx ho, ?_⟩
  split
  · exact ⟨hid, rfl⟩
  · exact ⟨hid, hspendable⟩

theorem Regained.failedTxs {txs : List Transaction} {i : Nat} (h : Regained d i) :
    Regained (txs.foldl Monitor.failedTx d) i := by
  induction txs generalizing d with
  | nil => exact h
  | cons tx txs ih => exact ih h.failedTx

theorem Regained.failedPages {fuel offset i : Nat} (h : Regained d i) :
    Regained (failedPages cutoff fuel offset d) i := by
  induction fuel generalizing d offset with
  | zero => exact h
  | succ fuel ih =>
    unfold Monitor.failedPages
    split
    · exact h.failedTxs
    · exact ih h.failedTxs

/-- A claim that is not one of the row stays. -/
theorem claimed_failedTx {tx : Transaction} {o : Output} (h : o ∈ d.outputs)
    (hother : tx.txid = none ∨ o.spentBy ≠ some tx.transactionId) : o ∈ (failedTx d tx).outputs := by
  have hmem := mem_failedTx_outputs tx h
  rcases hother with hnone | hne
  · simpa [hnone] using hmem
  · simpa [hne] using hmem

theorem claimed_failedTxs {txs : List Transaction} {o : Output} (h : o ∈ d.outputs)
    (hother : ∀ tx ∈ txs, tx.txid = none ∨ o.spentBy ≠ some tx.transactionId) :
    o ∈ (txs.foldl failedTx d).outputs := by
  induction txs generalizing d with
  | nil => exact h
  | cons tx txs ih =>
    exact ih (claimed_failedTx h (hother tx (by simp))) fun t ht => hother t (by simp [ht])

/-- A claim stays in a run that reads no row with a txid that made it. -/
theorem claimed_failedPages {fuel offset : Nat} {o : Output} (h : o ∈ d.outputs)
    (hother : ∀ tx ∈ pagesRead cutoff fuel offset d,
      tx.txid = none ∨ o.spentBy ≠ some tx.transactionId) :
    o ∈ (failedPages cutoff fuel offset d).outputs := by
  induction fuel generalizing d offset with
  | zero => exact h
  | succ fuel ih =>
    unfold pagesRead at hother
    have hpage : o ∈ (failedPage cutoff offset d).outputs :=
      claimed_failedTxs h fun tx htx =>
        hother tx (List.mem_append_left _ (List.mem_filter.mp htx).1)
    unfold failedPages
    split
    · exact hpage
    · rename_i hfull
      rw [if_neg hfull] at hother
      exact ih hpage fun tx htx => hother tx (List.mem_append_right _ htx)

/-- The rows keep their txids and their order. -/
theorem firstTx_failedTx (tx : Transaction) (txid : String) :
    ((failedTx d tx).firstTx txid).map (·.transactionId) =
      (d.firstTx txid).map (·.transactionId) := by
  unfold failedTx
  split
  · rfl
  · exact firstTx_setFirstStatus

theorem isSome_firstTx_failedTx (tx : Transaction) {txid : String}
    (h : (d.firstTx txid).isSome = true) : ((failedTx d tx).firstTx txid).isSome = true := by
  have hsame := congrArg Option.isSome (firstTx_failedTx (d := d) tx txid)
  rw [Option.isSome_map, Option.isSome_map, h] at hsame
  exact hsame

/-- A row with a txid regains the outputs that it claims. -/
theorem regained_failedTx {tx : Transaction} {o : Output} {txid : String}
    (htxid : tx.txid = some txid) (hfirst : (d.firstTx txid).isSome = true)
    (hspent : o.spentBy = some tx.transactionId) (h : o ∈ d.outputs) :
    Regained (failedTx d tx) o.outputId := by
  refine ⟨_, mem_failedTx_outputs tx h, ?_⟩
  rw [htxid, Option.bind_some, hfirst, hspent, if_pos (by simp)]
  exact ⟨rfl, rfl⟩

/-- The rows with a txid find a row to fail. -/
def Named (d : Tables) (txs : List Transaction) : Prop :=
  ∀ tx ∈ txs, ∀ txid, tx.txid = some txid → (d.firstTx txid).isSome = true

theorem Named.failedTx {txs : List Transaction} {tx : Transaction} (h : Named d (tx :: txs)) :
    Named (failedTx d tx) txs :=
  fun t ht txid htxid => isSome_firstTx_failedTx tx (h t (by simp [ht]) txid htxid)

theorem named_page (cutoff : Int) (offset : Nat) :
    Named d ((abandonedPage offset d).filter (aged cutoff)) := by
  intro tx htx txid htxid
  obtain ⟨hmem, -⟩ := mem_abandonedPage (List.mem_filter.mp htx).1
  by_contra hnone
  rw [Option.not_isSome_iff_eq_none] at hnone
  have hnot := Table.first_none.mp hnone tx hmem
  simp [htxid] at hnot

theorem regained_failedTxs {txs : List Transaction} {tx : Transaction} {o : Output}
    (hnamed : Named d txs) (htx : tx ∈ txs) (htxid : tx.txid ≠ none)
    (hspent : o.spentBy = some tx.transactionId) (h : o ∈ d.outputs) :
    Regained (txs.foldl failedTx d) o.outputId := by
  induction txs generalizing d with
  | nil => cases htx
  | cons other txs ih =>
    rw [List.foldl_cons]
    by_cases hclaims : other.txid = none ∨ o.spentBy ≠ some other.transactionId
    · rcases List.mem_cons.mp htx with rfl | htx
      · exact absurd hclaims (by simp [htxid, hspent])
      · exact ih hnamed.failedTx htx (claimed_failedTx h hclaims)
    · rw [not_or, not_not] at hclaims
      obtain ⟨hsome, hspent'⟩ := hclaims
      obtain ⟨txid, htxid'⟩ := Option.ne_none_iff_exists'.mp hsome
      exact (regained_failedTx htxid' (hnamed other (by simp) txid htxid') hspent' h).failedTxs

/-- A run regains what a row claims that it reads, that is old and that has a txid. -/
theorem regained_failedPages {fuel offset : Nat} {tx : Transaction} {o : Output}
    (htx : tx ∈ pagesRead cutoff fuel offset d) (haged : aged cutoff tx = true)
    (htxid : tx.txid ≠ none) (hspent : o.spentBy = some tx.transactionId) (h : o ∈ d.outputs) :
    Regained (failedPages cutoff fuel offset d) o.outputId := by
  induction fuel generalizing d offset with
  | zero => cases htx
  | succ fuel ih =>
    unfold pagesRead at htx
    unfold failedPages
    have hpage : tx ∈ abandonedPage offset d → Regained (failedPage cutoff offset d) o.outputId :=
      fun hmem => regained_failedTxs (named_page cutoff offset) (List.mem_filter.mpr ⟨hmem, haged⟩)
        htxid hspent h
    by_cases hfull : (abandonedPage offset d).length < 100
    · rw [if_pos hfull, List.append_nil] at htx
      rw [if_pos hfull]
      exact hpage htx
    · rw [if_neg hfull] at htx ⊢
      rcases List.mem_append.mp htx with hmem | hrest
      · exact (hpage hmem).failedPages
      · by_cases hclaims : ∃ other ∈ (abandonedPage offset d).filter (aged cutoff),
            other.txid ≠ none ∧ o.spentBy = some other.transactionId
        · obtain ⟨other, hother, hsome, hspent'⟩ := hclaims
          exact (regained_failedTxs (named_page cutoff offset) hother hsome hspent' h).failedPages
        · refine ih hrest (claimed_failedTxs h fun other hother => ?_)
          by_contra hboth
          rw [not_or, not_not] at hboth
          exact hclaims ⟨other, hother, hboth⟩

end WalletToolbox.Monitor
