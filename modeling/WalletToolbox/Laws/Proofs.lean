import WalletToolbox.Laws.Outcomes

/-! # What proof collection does

A request that the monitor takes up for its proof is completed, sent again, given up, counted as
tried, or linked to a proof.
Linking a proof that was not stored yet completes every transaction with the txid. -/

namespace WalletToolbox.Storage

open WalletToolbox.Lib
open WalletToolbox.Lib.Prog hiding pure exec

variable {s : Store} {E : Store → Prop}

/-- A loop of updates that link one proof to transactions. -/
theorem wp_forM_links {γ : Type} {xs : List γ} {id : γ → Nat} {p : TransactionPartial}
    {q : ProvenTx} {Q : Unit → Store → Prop} (hq : q ∈ s.provenTxs)
    (hp : p.provenTxId = some q.provenTxId)
    (h : ∀ s' : Store, s'.toTables =
      xs.foldl (fun d x => ((Stmt.updateTransaction (id x) p).apply d).2) s.toTables → Q () s') :
    wp Stmt.exec (forM xs fun x => exec' (.updateTransaction (id x) p)) Q E s := by
  induction xs generalizing s with
  | nil => exact h s rfl
  | cons x xs ih =>
    rw [List.forM_cons, wp_bind]
    refine wp_exec'_links (by exact ⟨q, hq, hp⟩) fun s₁ h₁ => ih ?_ fun s' hs' => h s' ?_
    · rw [h₁]
      exact hq
    · rw [hs', h₁, List.foldl_cons]

/-- The transactions with a txid are completed under a proof. -/
def Tables.completeAll (d : Tables) (txid : String) (provenTxId : Nat) : Tables :=
  { d with
    transactions := d.transactions.update (·.txid == some txid)
      (({ status := some .completed, provenTxId := some provenTxId } : TransactionPartial).apply
        d.now) fun _ => rfl }

/-- A request is linked to a proof and completed. -/
def Tables.linkReq (d : Tables) (reqId provenTxId : Nat) : Tables :=
  ((Stmt.updateProvenTxReq reqId
    { provenTxId := some provenTxId, status := some .completed }).apply d).2

/-- The effect of linking a request to the proof of a txid. -/
def Tables.linkProof (d : Tables) (reqId : Nat) (provenTx : ProvenTx) : Tables :=
  match d.provenTxs.first (·.txid == provenTx.txid) with
  | some ep => d.linkReq reqId ep.provenTxId
  | none =>
    ((((Stmt.insertProvenTx provenTx).apply d).2).linkReq reqId
      (d.provenTxs.lastId + 1)).completeAll provenTx.txid (d.provenTxs.lastId + 1)

theorem mem_completeAll {d : Tables} {txid : String} {provenTxId : Nat} {t : Transaction} :
    t ∈ (d.completeAll txid provenTxId).transactions ↔ ∃ t₀ ∈ d.transactions, t =
      if t₀.txid == some txid then
        { t₀ with
          status := .completed, provenTxId := some provenTxId, updatedAt := toSeconds d.now }
      else t₀ := by
  simp only [Tables.completeAll]
  exact Table.mem_update

/-- Linking a request to a proof is never refused. -/
theorem wp_updateProvenTxReqWithNewProvenTx {reqId : Nat} {provenTx : ProvenTx}
    {Q : Nat → Store → Prop}
    (h : ∀ n, ∀ s' : Store, s'.toTables = s.toTables.linkProof reqId provenTx → Q n s') :
    wp Stmt.exec (updateProvenTxReqWithNewProvenTx reqId provenTx) Q E s := by
  unfold updateProvenTxReqWithNewProvenTx
  unfold Tables.linkProof at h
  rw [wp_atomically, wp_bind, wp_ask]
  cases hfirst : s.provenTxs.first (·.txid == provenTx.txid) with
  | some ep =>
    simp only [hfirst] at h
    simp only [wp_bind, wp_pure, Bool.false_eq_true, if_false]
    exact wp_exec'_links (by exact ⟨ep, (Table.first_some hfirst).1, rfl⟩) fun s₁ h₁ => h _ s₁ h₁
  | none =>
    simp only [hfirst] at h
    simp only [wp_bind, wp_pure, if_true]
    have hfresh : ∀ q ∈ s.provenTxs, q.txid ≠ provenTx.txid := fun q hq heq => by
      simpa [heq] using Table.first_none.mp hfirst q hq
    refine wp_exec_of_ok (exec_insertProvenTx hfresh) fun s₁ hs₁ => ?_
    set row := provenTx.stored (s.provenTxs.lastId + 1) with hrow
    have hin : row ∈ s₁.provenTxs := by
      rw [hs₁]
      exact mem_insertProvenTx.mpr (.inr rfl)
    refine wp_exec'_links (by exact ⟨row, hin, rfl⟩) fun s₂ h₂ => ?_
    rw [hs₁] at h₂
    rw [wp_ask]
    refine wp_forM_links (q := row) (by rw [h₂, ← hs₁]; exact hin) rfl fun s' hs' => h _ s' ?_
    have hids := foldl_updateTransaction s₂.toTables
      { status := some .completed, provenTxId := some (s.provenTxs.lastId + 1) }
      ((s₂.transactions.find (·.txid == some provenTx.txid)).map (·.transactionId))
    rw [List.foldl_map] at hids
    refine hs'.trans (hids.trans ?_)
    have hs₂ : s₂.toTables = (((Stmt.insertProvenTx provenTx).apply s.toTables).2).linkReq reqId
        (s.provenTxs.lastId + 1) := h₂
    rw [← hs₂]
    refine congrArg (fun t => { s₂.toTables with transactions := t })
      (Table.update_congr fun t ht => ?_)
    rw [show ((s₂.transactions.find (·.txid == some provenTx.txid)).map
      (·.transactionId)).contains t.transactionId = (t.txid == some provenTx.txid) from
        Table.contains_key_find ht]

end WalletToolbox.Storage

namespace WalletToolbox.Monitor

open WalletToolbox.Lib WalletToolbox.Storage
open WalletToolbox.Lib.Prog hiding pure exec

variable {s : Store} {E : Store → Prop}

/-- What proof collection does about a request. -/
inductive ProofMove where
  | nothing
  | complete
  | rebroadcast
  | giveUp
  | attempt
  | save (provenTx : ProvenTx)

/-- The move for a request at a time. -/
def proofMove (services : Services) (params : ProofParams) (now : Nat) (req : ProvenTxReq) :
    ProofMove :=
  if req.provenTxId.any (0 < ·) then .complete
  else if req.attempts > params.attemptsLimit then
    if rebroadcasts req.status then .rebroadcast else .giveUp
  else
    match (services.getMerklePath req.txid).merklePath, (services.getMerklePath req.txid).header with
    | some merklePath, some header =>
      if params.maxAcceptableHeight.any (· < header.height) then .nothing
      else .save
        { createdAt := now, updatedAt := now, txid := req.txid, height := header.height, index := 0
          merklePath, rawTx := req.rawTx, blockHash := header.hash, merkleRoot := header.merkleRoot }
    | _, _ => if params.countsAsAttempt && req.status != .nosend then .attempt else .nothing

/-- What a move writes to the request alone. -/
def ProofMove.partial? (req : ProvenTxReq) : ProofMove → Option ProvenTxReqPartial
  | .nothing | .save _ => none
  | .complete => some { status := some .completed, notified := some false }
  | .rebroadcast => some { status := some .unsent, attempts := some 0, notified := some false }
  | .giveUp => some { status := some .invalid, notified := some false }
  | .attempt => some { attempts := some (req.attempts + 1) }

/-- The effect of a move. -/
def proofEffect (d : Tables) (req : ProvenTxReq) (move : ProofMove) : Tables :=
  match move with
  | .save provenTx => d.linkProof req.provenTxReqId provenTx
  | move =>
    match move.partial? req with
    | none => d
    | some p => ((Stmt.updateProvenTxReq req.provenTxReqId p).apply d).2

theorem wp_getProof {services : Services} {params : ProofParams} {req : ProvenTxReq}
    {Q : Store → Prop}
    (h : ∀ s' : Store, s'.toTables =
      proofEffect s.toTables req (proofMove services params s.now req) → Q s') :
    wp Stmt.exec (getProof services params req) (fun _ => Q) E s := by
  unfold getProof
  unfold proofMove at h
  cases hlinked : req.provenTxId.any (0 < ·) with
  | true =>
    simp only [hlinked, if_true, wp_bind] at h ⊢
    exact wp_ignore_plain (by exact rfl) h
  | false =>
    simp only [hlinked, Bool.false_eq_true, if_false] at h ⊢
    by_cases htried : req.attempts > params.attemptsLimit
    · simp only [htried, if_true] at h ⊢
      unfold applyProofTimeout
      cases hsent : rebroadcasts req.status with
      | true =>
        simp only [hsent, if_true, wp_bind] at h ⊢
        exact wp_ignore_plain (by exact rfl) h
      | false =>
        simp only [hsent, Bool.false_eq_true, if_false, wp_bind] at h ⊢
        exact wp_ignore_plain (by exact rfl) h
    · simp only [htried, if_false] at h ⊢
      have hmiss : (∀ s' : Store, s'.toTables = proofEffect s.toTables req
          (if params.countsAsAttempt && req.status != .nosend then .attempt else .nothing) → Q s') →
          wp Stmt.exec (if params.countsAsAttempt && req.status != .nosend then do
            ignore (exec (.updateProvenTxReq req.provenTxReqId { attempts := some (req.attempts + 1) }))
            pure ProofResult.pending
          else pure ProofResult.pending : StorageProg ProofResult) (fun _ => Q) E s := by
        intro h
        split
        · rename_i hcount
          simp only [hcount, if_true] at h
          rw [wp_bind]
          exact wp_ignore_plain (by exact rfl) h
        · rename_i hcount
          simp only [hcount, if_false, Bool.false_eq_true] at h
          exact h s rfl
      cases hpath : (services.getMerklePath req.txid).merklePath with
      | none =>
        simp only [hpath] at h
        exact hmiss h
      | some merklePath =>
        cases hheader : (services.getMerklePath req.txid).header with
        | none =>
          simp only [hpath, hheader] at h
          exact hmiss h
        | some header =>
          simp only [hpath, hheader] at h ⊢
          split
          · rename_i hheight
            simp only [hheight, if_true] at h
            exact h s rfl
          · rename_i hheight
            simp only [hheight, if_false, Bool.false_eq_true] at h
            unfold saveProof
            rw [wp_bind, wp_utcNow, wp_bind]
            exact wp_attempt (wp_updateProvenTxReqWithNewProvenTx fun _ s' hs' => h s' hs')

end WalletToolbox.Monitor
