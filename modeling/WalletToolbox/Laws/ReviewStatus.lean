import WalletToolbox.Laws.Provider
import WalletToolbox.Monitor.TaskReviewStatus

/-! # What the status review does

It writes requests that wait for a broadcast and nothing else, so a transaction is in order after
the review exactly when it was before. -/

namespace WalletToolbox.Monitor

open WalletToolbox.Lib WalletToolbox.Storage
open WalletToolbox.Lib.Prog hiding pure exec

variable {s : Store} {d d' : Tables} {E : Store → Prop} {agedLimit : Int}

/-! ## What the review is for -/

/-- Aged transactions with a proof are completed, and those of aged invalid requests have failed. -/
structure InOrder (agedLimit : Int) (d : Tables) : Prop where
  proven : ∀ t ∈ d.transactions, (t.updatedAt : Int) < agedLimit → t.provenTxId.isSome = true →
    t.status = .completed
  invalid : ∀ t ∈ d.transactions, ∀ r ∈ d.provenTxReqs, t.txid = some r.txid → r.status = .invalid →
    (r.updatedAt : Int) < agedLimit → t.status = .failed

/-- Requests that are over or on the chain keep their status. -/
def SettledKept (d d' : Tables) : Prop :=
  ∀ r ∈ d.provenTxReqs,
    r.status = .completed ∨ r.status = .unmined ∨ r.status = .invalid ∨ r.status = .doubleSpend →
    ∀ r' ∈ d'.provenTxReqs, r'.provenTxReqId = r.provenTxReqId → r'.status = r.status

/-! ## What it does -/

/-- Nothing but stale requests differs, and they are stale still. -/
structure StaleOnly (d d' : Tables) : Prop where
  transactions : d'.transactions = d.transactions
  others : ∀ r, stale r.status = false → (r ∈ d'.provenTxReqs ↔ r ∈ d.provenTxReqs)

theorem StaleOnly.refl (d : Tables) : StaleOnly d d :=
  ⟨rfl, fun _ _ => Iff.rfl⟩

/-- Resetting a stale request keeps all others. -/
theorem StaleOnly.reset (h : StaleOnly d d') {req : ProvenTxReq} (hreq : req ∈ d.provenTxReqs)
    (hstale : stale req.status = true) :
    StaleOnly d ((Stmt.updateProvenTxReq req.provenTxReqId { status := some .unsent }).apply d').2 := by
  refine ⟨h.transactions, fun r hr => ?_⟩
  rw [mem_updateProvenTxReq]
  constructor
  · rintro ⟨r₀, hr₀, heq⟩
    split at heq
    · -- the rewritten row is stale
      rw [heq] at hr
      cases hr
    · rw [heq] at hr ⊢
      exact (h.others r₀ hr).mp hr₀
  · intro hmem
    refine ⟨r, (h.others r hr).mpr hmem, ?_⟩
    rw [if_neg]
    intro hkey
    rw [Table.eq_of_key_eq hmem hreq hkey, hstale] at hr
    cases hr

theorem wp_reviewStatus {Q : String → Store → Prop}
    (h : ∀ msg s', StaleOnly s.toTables s'.toTables → Q msg s') :
    wp Stmt.exec (reviewStatus agedLimit) Q E s := by
  unfold reviewStatus
  rw [wp_bind, wp_ask, wp_bind]
  refine wp_mono (wp_foldlM (I := fun _ s' => StaleOnly s.toTables s'.toTables) ?_ (StaleOnly.refl _))
    (fun _ s' hs' => h _ s' hs') fun _ he => he
  intro req hreq corrected s₁ h₁
  obtain ⟨hmem, hstale⟩ := Table.mem_find.mp hreq
  unfold resetStale
  split
  · rw [wp_bind]
    refine wp_exec'_plain (by exact rfl) fun s₂ h₂ => ?_
    show StaleOnly s.toTables s₂.toTables
    rw [h₂]
    exact h₁.reset hmem hstale
  · exact h₁

/-! ## What it repairs -/

theorem StaleOnly.settledKept (h : StaleOnly d d') : SettledKept d d' := by
  intro r hr hstatus r' hr' hkey
  have hsettled : stale r.status = false := by
    rcases hstatus with heq | heq | heq | heq <;> rw [heq] <;> rfl
  rw [Table.eq_of_key_eq hr' ((h.others r hsettled).mpr hr) hkey]

theorem StaleOnly.inOrder_iff (h : StaleOnly d d') : InOrder agedLimit d' ↔ InOrder agedLimit d := by
  have hinvalid : ∀ r : ProvenTxReq, r.status = .invalid → (r ∈ d'.provenTxReqs ↔ r ∈ d.provenTxReqs) :=
    fun r hr => h.others r (by rw [hr]; rfl)
  constructor
  · intro hd
    refine ⟨fun t ht => hd.proven t (h.transactions ▸ ht), fun t ht r hr htxid hstatus => ?_⟩
    exact hd.invalid t (h.transactions ▸ ht) r ((hinvalid r hstatus).mpr hr) htxid hstatus
  · intro hd
    refine ⟨fun t ht => hd.proven t (h.transactions ▸ ht), fun t ht r hr htxid hstatus => ?_⟩
    exact hd.invalid t (h.transactions ▸ ht) r ((hinvalid r hstatus).mp hr) htxid hstatus

theorem reviewStatus_staleOnly (agedLimit : Int) (s : Store) :
    ∃ msg s', (reviewStatus agedLimit).run Stmt.exec s = (.ok msg, s') ∧
      StaleOnly s.toTables s'.toTables := by
  have hwp : wp Stmt.exec (reviewStatus agedLimit) (fun _ s' => StaleOnly s.toTables s'.toTables)
      (fun _ => False) s := wp_reviewStatus fun _ _ h => h
  exact wp_total hwp

/-- The review leaves the store in order exactly when it was in order before. -/
theorem reviewStatus_inOrder_iff (agedLimit : Int) (s : Store) :
    ∃ msg s', (reviewStatus agedLimit).run Stmt.exec s = (.ok msg, s') ∧
      (InOrder agedLimit s'.toTables ∧ SettledKept s.toTables s'.toTables ↔
        InOrder agedLimit s.toTables) := by
  obtain ⟨msg, s', hrun, hstale⟩ := reviewStatus_staleOnly agedLimit s
  refine ⟨msg, s', hrun, ?_⟩
  rw [hstale.inOrder_iff]
  exact and_iff_left hstale.settledKept

/-- A transaction that got its proof but not its status. -/
def halfProven : Store :=
  ((do
    let user ← exec (.insertUser { identityKey := "alice", activeStorage := "" })
    let proof ← exec (.insertProvenTx
      { txid := "aa", height := 100, index := 0, merklePath := [], rawTx := [], blockHash := ""
        merkleRoot := "" })
    exec' (.insertTransaction
      { userId := user, provenTxId := some proof, status := .unproven, reference := "r1"
        isOutgoing := true, satoshis := 0, description := "", version := none, lockTime := none
        txid := some "aa", inputBeef := none, rawTx := none })).run Stmt.exec Store.empty).2

theorem halfProven_not_repaired :
    ∃ msg s', (reviewStatus 1000).run Stmt.exec halfProven = (.ok msg, s') ∧
      ¬(InOrder 1000 s'.toTables ∧ SettledKept halfProven.toTables s'.toTables) := by
  obtain ⟨msg, s', hrun, hstale⟩ := reviewStatus_staleOnly 1000 halfProven
  refine ⟨msg, s', hrun, fun h => ?_⟩
  have hwrong : ¬∀ t ∈ halfProven.transactions, (t.updatedAt : Int) < 1000 →
      t.provenTxId.isSome = true → t.status = .completed := by
    decide +kernel
  exact hwrong (hstale.inOrder_iff.mp h.1).proven

end WalletToolbox.Monitor
