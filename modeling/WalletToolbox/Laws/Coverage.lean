import WalletToolbox.Laws.FailAbandoned
import WalletToolbox.Laws.Hydration
import WalletToolbox.Laws.System
import WalletToolbox.Monitor.TaskCheckForProofs
import WalletToolbox.Monitor.TaskSendWaiting
import WalletToolbox.Sample

/-! # Whom a sweep of the monitor passes on

Three tasks read a query page by page, by offset, and change what a page holds before they read the
next one.
The rows that leave the query move the others forward, so after each full page as many rows are
overlooked as left. -/

namespace WalletToolbox.Monitor

open WalletToolbox.Lib WalletToolbox.Storage
open WalletToolbox.Lib.Prog hiding pure exec

variable {s s' : Store} {d : Tables} {sdk : Sdk} {bumps : BumpSdk} {services : Services}

/-- A sweep over pages of a hundred ends, and reads each row once or overlooks it. -/
theorem run_sweep {α : Type} [Keyed α] {sel : Store → List α} {out : List α → Nat → Bool}
    {I : Store → Prop} {treat : List α → StorageProg Unit}
    (hsheds : Sheds I key sel (fun s page => leaves s (treat page)) out)
    (htotal : ∀ page s, wp Stmt.exec (treat page) (fun _ _ => True) (fun _ => False) s)
    (hnone : ∀ s, leaves s (treat []) = s) (hs : I s) {fuel : Nat} (hfuel : (sel s).length < fuel) :
    ∃ read s', (Prog.sweep 100 sel treat fuel 0).run Stmt.exec s = (.ok read, s') ∧
      (read ++ overlooked 100 key out fuel 0 (sel s)).Perm (sel s) := by
  have hwp : wp Stmt.exec (Prog.sweep 100 sel treat fuel 0)
      (fun read _ => (read ++ overlooked 100 key out fuel 0 (sel s)).Perm (sel s))
      (fun _ => False) s := by
    refine @wp_sweep _ _ _ _ _ _ 100 (fun s => s) sel (fun s page => leaves s (treat page)) treat _
      (by decide) hnone (fun page s Q hQ => ?_) _ _ _ _ fun s' _ => ?_
    · obtain ⟨_, s', hrun, -⟩ := wp_total (htotal page s)
      unfold Prog.wp
      rw [hrun]
      refine hQ s' ?_
      simp only [leaves, hrun]
    · exact swept_append_overlooked_perm (by decide : 0 < 100) hsheds hs rfl rfl hfuel
  obtain ⟨read, s', hrun, hperm⟩ := wp_total hwp
  exact ⟨read, s', hrun, hperm⟩

/-! ## Treating requests one after another -/

section Requests

variable {p gone : ProvenTxReq → Bool} {I : Store → Prop}

/-- A loop whose turns each rewrite their own request only. -/
theorem wp_foldlM_treated {β : Type} {f : β → ProvenTxReq → StorageProg β} {c : ProvenTxReq → Prop}
    (hstep : ∀ b req s, I s → req ∈ s.provenTxReqs → c req → wp Stmt.exec (f b req)
      (fun _ s' => I s' ∧ Table.Treated p gone [key req] s.provenTxReqs s'.provenTxReqs)
      (fun _ => False) s)
    {reqs : List ProvenTxReq} {b : β} (hs : I s) (hreqs : ∀ r ∈ reqs, r ∈ s.provenTxReqs ∧ c r)
    (hnodup : (reqs.map key).Nodup) :
    wp Stmt.exec (reqs.foldlM f b)
      (fun _ s' => I s' ∧ Table.Treated p gone (reqs.map key) s.provenTxReqs
        s'.provenTxReqs) (fun _ => False) s := by
  induction reqs generalizing b s with
  | nil => exact ⟨hs, .nothing _⟩
  | cons r reqs ih =>
    rw [List.map_cons, List.nodup_cons] at hnodup
    obtain ⟨hnew, hnodup⟩ := hnodup
    obtain ⟨hr, hc⟩ := hreqs r (by simp)
    rw [List.foldlM_cons, wp_bind]
    refine wp_mono (hstep b r s hs hr hc) (fun b' s₁ h₁ => ?_) fun _ h => h
    obtain ⟨hs₁, hfirst⟩ := h₁
    have hrest : ∀ x ∈ reqs, x ∈ s₁.provenTxReqs ∧ c x := by
      intro x hx
      obtain ⟨hmem, hc⟩ := hreqs x (by simp [hx])
      have hne : key x ≠ key r := fun heq => hnew (heq ▸ List.mem_map_of_mem hx)
      exact ⟨hfirst.mem hmem (by simpa using hne), hc⟩
    refine wp_mono (ih hs₁ hrest hnodup) (fun _ s' h' => ⟨h'.1, ?_⟩) fun _ h => h
    exact hfirst.append h'.2 fun i hi => by rwa [List.mem_singleton.mp hi]

/-- An update of a request that is there. -/
theorem treated_update {req : ProvenTxReq} (hreq : req ∈ d.provenTxReqs) {u : ProvenTxReqPartial}
    (hsel : p (u.apply d.now req) = !gone req) :
    Table.Treated p gone [key req] d.provenTxReqs
      ((Stmt.updateProvenTxReq req.provenTxReqId u).apply d).2.provenTxReqs :=
  @Table.Treated.update _ _ _ _ _ _ hreq (u.apply d.now) (fun _ => rfl) hsel

/-- Pages that are treated so are shed. -/
theorem sheds_requests {treat : List ProvenTxReq → StorageProg Unit}
    (htreat : ∀ page s, I s → (∀ r ∈ page, r ∈ s.provenTxReqs ∧ p r = true) →
      (page.map key).Nodup → wp Stmt.exec (treat page)
        (fun _ s' => I s' ∧ Table.Treated p gone (page.map key) s.provenTxReqs
          s'.provenTxReqs) (fun _ => False) s) :
    Sheds I key (fun s : Store => s.provenTxReqs.find p)
      (fun s page => leaves s (treat page)) (takenBy gone) := by
  intro s before page behind hs hsplit
  have hsplit : s.provenTxReqs.find p = before ++ page ++ behind := hsplit
  have hpage : ∀ r ∈ page, r ∈ s.provenTxReqs ∧ p r = true := fun r hr =>
    Table.mem_find.mp (by rw [hsplit]; simp [hr])
  have hnodup := s.provenTxReqs.nodup_key_find p
  rw [hsplit, List.map_append, List.map_append] at hnodup
  have hkeys : (page.map key).Nodup := hnodup.of_append_left.of_append_right
  obtain ⟨_, s', hrun, hs', htreated⟩ := wp_total (htreat page s hs hpage hkeys)
  have hleaves : leaves s (treat page) = s' := by
    unfold leaves
    rw [hrun]
  simp only [hleaves]
  exact ⟨hs', htreated.find hsplit⟩

end Requests

/-! ## TaskSendWaiting -/

/-- What posting a request does depends on the sources of its inputs only. -/
theorem posting_congr (h : SameSources s.toTables s'.toTables) (req : ProvenTxReq) :
    posting sdk (storedBeefs sdk bumps) services s' req =
      posting sdk (storedBeefs sdk bumps) services s req := by
  have hmerge : mergeSource sdk (storedBeefs sdk bumps) s' =
      mergeSource sdk (storedBeefs sdk bumps) s := by
    funext acc input
    simp only [mergeSource, storedBeefs, getValidBeefForTxid_congr h]
  simp only [posting, rebuildBeef, hmerge]

theorem verdictEffect_provenTxReqs {req : ProvenTxReq} {v : ProvenTxReqStatus × PostReqStatus} :
    (verdictEffect services d req v).provenTxReqs =
      ((Stmt.updateProvenTxReq req.provenTxReqId (verdictReq req v)).apply d).2.provenTxReqs := by
  simp only [verdictEffect]
  split
  · exact setFirstStatus_provenTxReqs (d := (Stmt.apply d _).2)
  · exact setFirstStatus_provenTxReqs (d := (Stmt.apply d _).2)
  · rfl

/-- No source changes when a request is posted. -/
theorem sameSources_post (req : ProvenTxReq) (answer : Posting) :
    SameSources d (postingEffect services d req answer) := by
  have hreq : ∀ u, SameSources d ((Stmt.updateProvenTxReq req.provenTxReqId u).apply d).2 :=
    fun _ => .of_transactions rfl rfl
  cases answer with
  | skipped => exact .refl d
  | missingSource => exact .refl d
  | unusable => exact hreq _
  | posted v =>
    simp only [postingEffect, verdictEffect]
    split
    · exact ((hreq _).trans (.setFirstStatus _ _)).trans (.of_transactions rfl rfl)
    · exact (hreq _).trans (.setFirstStatus _ _)
    · exact hreq _

/-- Posting an aged request takes it out of the query: it cannot be rebuilt, or the verdict of the
providers gives it a status that is not selected. -/
def gonePosted (sdk : Sdk) (bumps : BumpSdk) (services : Services) (agedLimit : Int)
    (includeSending : Bool) (s : Store) (req : ProvenTxReq) : Bool :=
  agedReq agedLimit req &&
    match posting sdk (storedBeefs sdk bumps) services s req with
    | .skipped | .missingSource => false
    | .unusable => true
    | .posted v => !(waitingStatuses includeSending).contains v.1

section SendWaiting

variable {agedLimit : Int} {includeSending : Bool}

theorem treated_posting {req : ProvenTxReq} (hreq : req ∈ s.provenTxReqs)
    (hsel : (waitingStatuses includeSending).contains req.status = true)
    (haged : agedReq agedLimit req = true) :
    Table.Treated (fun r => (waitingStatuses includeSending).contains r.status)
      (gonePosted sdk bumps services agedLimit includeSending s) [key req] s.provenTxReqs
      (postingEffect services s.toTables req
        (posting sdk (storedBeefs sdk bumps) services s req)).provenTxReqs := by
  have hgone := fun answer (h : posting sdk (storedBeefs sdk bumps) services s req = answer) =>
    show gonePosted sdk bumps services agedLimit includeSending s req = _ by
      rw [gonePosted, haged, h, Bool.true_and]
  cases hanswer : posting sdk (storedBeefs sdk bumps) services s req with
  | skipped => exact .keep hreq (by rw [hgone _ hanswer, hsel]; rfl)
  | missingSource => exact .keep hreq (by rw [hgone _ hanswer, hsel]; rfl)
  | unusable =>
    refine treated_update hreq ?_
    rw [hgone _ hanswer]
    cases includeSending <;> rfl
  | posted v =>
    simp only [postingEffect]
    rw [verdictEffect_provenTxReqs]
    refine treated_update hreq ?_
    rw [hgone _ hanswer, Bool.not_not]
    rfl

/-- A page of the sweep, from a store with the sources of the first one. -/
theorem wp_sendPage {s₀ : Store} {page : List ProvenTxReq}
    (hs : SameSources s₀.toTables s.toTables)
    (hpage : ∀ r ∈ page, r ∈ s.provenTxReqs ∧
      (waitingStatuses includeSending).contains r.status = true)
    (hnodup : (page.map key).Nodup) :
    wp Stmt.exec (sendPage sdk bumps services agedLimit page)
      (fun _ s' => SameSources s₀.toTables s'.toTables ∧
        Table.Treated (fun r => (waitingStatuses includeSending).contains r.status)
          (gonePosted sdk bumps services agedLimit includeSending s₀) (page.map key)
          s.provenTxReqs s'.provenTxReqs) (fun _ => False) s := by
  have hwiden : ∀ s' : Store, Table.Treated (fun r => (waitingStatuses includeSending).contains r.status)
      (gonePosted sdk bumps services agedLimit includeSending s₀)
      ((page.filter (agedReq agedLimit)).map key) s.provenTxReqs s'.provenTxReqs →
      Table.Treated (fun r => (waitingStatuses includeSending).contains r.status)
        (gonePosted sdk bumps services agedLimit includeSending s₀) (page.map key)
        s.provenTxReqs s'.provenTxReqs := by
    intro s' h
    refine h.widen (fun i hi => (List.filter_sublist.map key).subset hi) fun x hx hin hout => ?_
    obtain ⟨r, hr, hkey⟩ := List.mem_map.mp hin
    obtain rfl : r = x := Table.eq_of_key_eq (hpage r hr).1 hx hkey
    have hyoung : agedReq agedLimit r = false := by
      by_contra hold
      exact hout (List.mem_map_of_mem (List.mem_filter.mpr ⟨hr, by simpa using hold⟩))
    show (waitingStatuses includeSending).contains r.status = _
    rw [(hpage r hr).2, gonePosted, hyoung]
    rfl
  unfold sendPage
  refine wp_ite (fun hnone => ?_) fun _ => ?_
  · refine ⟨hs, hwiden s ?_⟩
    rw [List.isEmpty_iff.mp hnone]
    exact .nothing _
  · rw [wp_bind]
    refine wp_mono (wp_foldlM_treated (c := fun r =>
      (waitingStatuses includeSending).contains r.status = true ∧ agedReq agedLimit r = true)
      (fun details req s hs hreq hc => ?_) hs (fun r hr => ?_) ?_)
      (fun _ s' h => ⟨h.1, hwiden s' h.2⟩) fun _ h => h
    · rw [wp_bind]
      refine wp_attemptToPostReq fun s' hs' => ?_
      have hsame : gonePosted sdk bumps services agedLimit includeSending s₀ =
          gonePosted sdk bumps services agedLimit includeSending s :=
        funext fun r => by simp only [gonePosted, posting_congr hs]
      refine ⟨hs.trans ?_, ?_⟩
      · rw [hs']
        exact sameSources_post req _
      · rw [hsame, hs']
        exact treated_posting hreq hc.1 hc.2
    · obtain ⟨hr, haged⟩ := List.mem_filter.mp hr
      exact ⟨(hpage r hr).1, (hpage r hr).2, haged⟩
    · exact hnodup.sublist (List.filter_sublist.map key)

/-- The selected requests that a sweep overlooks, when those leave the query for which `gone` holds. -/
def overlookedReqs (gone : ProvenTxReq → Bool) (d : Tables) (reqs : List ProvenTxReq) :
    List ProvenTxReq :=
  overlooked 100 key (takenBy gone) (d.provenTxReqs.rows.length + 1) 0 reqs

/-- A run of the task passes on what it reads and finds old enough. -/
theorem runSendWaiting_reads (sdk : Sdk) (bumps : BumpSdk) (services : Services) (agedMsecs : UInt64)
    (includeSending : Bool) (s : Store) :
    let agedLimit := cutoffOf s.toTables agedMsecs
    ∃ read s', (runSendWaiting sdk bumps services agedMsecs includeSending).run Stmt.exec s =
        (.ok (read.filter (agedReq agedLimit)), s') ∧
      (read ++ overlookedReqs (gonePosted sdk bumps services agedLimit includeSending s) s.toTables
        (waitingReqs includeSending s.toTables)).Perm (waitingReqs includeSending s.toTables) := by
  intro agedLimit
  have htotal : ∀ page s, wp Stmt.exec (sendPage sdk bumps services agedLimit page)
      (fun _ _ => True) (fun _ => False) s := by
    intro page s
    unfold sendPage
    refine wp_ite (fun _ => trivial) fun _ => ?_
    rw [wp_bind]
    refine wp_foldlM (I := fun _ _ => True) (fun req _ details s _ => ?_) trivial
    rw [wp_bind]
    exact wp_attemptToPostReq fun _ _ => trivial
  have hsheds : Sheds (fun s' : Store => SameSources s.toTables s'.toTables) key
      (fun s : Store => waitingReqs includeSending s.toTables)
      (fun s page => leaves s (sendPage sdk bumps services agedLimit page))
      (takenBy (gonePosted sdk bumps services agedLimit includeSending s)) :=
    sheds_requests fun page s' hs' hpage hnodup => wp_sendPage hs' hpage hnodup
  obtain ⟨read, s', hrun, hperm⟩ := run_sweep hsheds htotal (fun _ => rfl) (.refl s.toTables)
    (Nat.lt_succ_of_le (List.length_filter_le _ _) :
      (waitingReqs includeSending s.toTables).length < s.provenTxReqs.rows.length + 1)
  refine ⟨read, s', ?_, hperm⟩
  unfold runSendWaiting
  rw [run_bind_of_ok (rfl : utcNow.run Stmt.exec s = (.ok s.now, s)), find, run_bind_of_ok (run_ask _ s)]
  exact run_bind_of_ok hrun

end SendWaiting

/-! ## TaskCheckForProofs -/

/-- Looking up a request takes it out of the query: it has a proof already, its attempts are used up, or
the services have a proof of an acceptable height. -/
def goneChecked (services : Services) (params : ProofParams) (req : ProvenTxReq) : Bool :=
  req.provenTxId.any (0 < ·) || decide (req.attempts > params.attemptsLimit) ||
    match (services.getMerklePath req.txid).merklePath, (services.getMerklePath req.txid).header with
    | some _, some header => !params.maxAcceptableHeight.any (· < header.height)
    | _, _ => false

/-- Whether a move takes the request out of the query. -/
def ProofMove.takesOut : ProofMove → Bool
  | .nothing | .attempt => false
  | _ => true

theorem takesOut_proofMove (services : Services) (params : ProofParams) (now : Nat) (req : ProvenTxReq) :
    (proofMove services params now req).takesOut = goneChecked services params req := by
  unfold proofMove goneChecked
  cases hlinked : req.provenTxId.any (0 < ·) with
  | true => rfl
  | false => ?_
  rw [if_neg Bool.false_ne_true]
  by_cases htried : req.attempts > params.attemptsLimit
  · rw [if_pos htried, decide_eq_true htried]
    split <;> rfl
  rw [if_neg htried, decide_eq_false htried]
  have hmiss : (if (params.countsAsAttempt && req.status != .nosend) = true then ProofMove.attempt
      else .nothing).takesOut = false := by
    split <;> rfl
  cases (services.getMerklePath req.txid).merklePath with
  | none => exact hmiss
  | some merklePath =>
    cases (services.getMerklePath req.txid).header with
    | none => exact hmiss
    | some header =>
      cases hheight : params.maxAcceptableHeight.any (· < header.height) <;> simp [hheight] <;> rfl

theorem linkProof_provenTxReqs (d : Tables) (reqId : Nat) (provenTx : ProvenTx) :
    ∃ provenTxId, (d.linkProof reqId provenTx).provenTxReqs =
      (d.linkReq reqId provenTxId).provenTxReqs := by
  unfold Tables.linkProof
  split
  · exact ⟨_, rfl⟩
  · exact ⟨_, rfl⟩

section CheckForProofs

variable {params : ProofParams}

theorem treated_proof {req : ProvenTxReq} (hreq : req ∈ d.provenTxReqs)
    (hsel : checkedStatuses.contains req.status = true) :
    Table.Treated (fun r => checkedStatuses.contains r.status) (goneChecked services params) [key req]
      d.provenTxReqs (proofEffect d req (proofMove services params d.now req)).provenTxReqs := by
  have hgone := takesOut_proofMove services params d.now req
  cases hmove : proofMove services params d.now req with
  | nothing => exact .keep hreq (by rw [← hgone, hmove, hsel]; rfl)
  | attempt => exact treated_update hreq (by rw [← hgone, hmove]; exact hsel)
  | complete => exact treated_update hreq (by rw [← hgone, hmove]; rfl)
  | rebroadcast => exact treated_update hreq (by rw [← hgone, hmove]; rfl)
  | giveUp => exact treated_update hreq (by rw [← hgone, hmove]; rfl)
  | save provenTx =>
    obtain ⟨provenTxId, hlink⟩ := linkProof_provenTxReqs d req.provenTxReqId provenTx
    simp only [proofEffect]
    rw [hlink]
    exact treated_update hreq (by rw [← hgone, hmove]; rfl)

theorem wp_checkPage {page : List ProvenTxReq}
    (hpage : ∀ r ∈ page, r ∈ s.provenTxReqs ∧ checkedStatuses.contains r.status = true)
    (hnodup : (page.map key).Nodup) :
    wp Stmt.exec (checkPage services params page)
      (fun _ s' => True ∧ Table.Treated (fun r => checkedStatuses.contains r.status)
        (goneChecked services params) (page.map key) s.provenTxReqs s'.provenTxReqs)
      (fun _ => False) s := by
  unfold checkPage
  rw [wp_bind]
  refine wp_foldlM_treated (I := fun _ => True) (fun result req s _ hreq hsel => ?_) trivial hpage hnodup
  have hget : wp Stmt.exec (getProof services params req)
      (fun _ s' => Table.Treated (fun r => checkedStatuses.contains r.status)
        (goneChecked services params) [key req] s.provenTxReqs s'.provenTxReqs) (fun _ => False) s :=
    wp_getProof fun s' hs' => hs' ▸ treated_proof hreq hsel
  rw [wp_bind]
  refine wp_mono hget (fun r s' h => ?_) fun _ h => h
  cases r <;> exact ⟨trivial, h⟩

/-- A run of the task passes on what it reads, and nothing when no header height is known. -/
theorem runCheckForProofs_reads (services : Services) (unprovenAttemptsLimit : UInt32) (checkNow : Bool)
    (lastNewHeaderHeight : UInt32) (s : Store) :
    ∃ read s', (runCheckForProofs services unprovenAttemptsLimit checkNow lastNewHeaderHeight).run
        Stmt.exec s = (.ok read, s') ∧
      (read ++ if lastNewHeaderHeight = unknownHeight then uncheckedReqs s.toTables
        else overlookedReqs (goneChecked services ⟨unprovenAttemptsLimit, checkNow,
          some lastNewHeaderHeight.toNat⟩) s.toTables (uncheckedReqs s.toTables)).Perm
        (uncheckedReqs s.toTables) := by
  unfold runCheckForProofs
  by_cases hheight : lastNewHeaderHeight = unknownHeight
  · simp only [if_pos hheight]
    exact ⟨[], s, rfl, .refl _⟩
  simp only [if_neg hheight]
  set params : ProofParams := ⟨unprovenAttemptsLimit, checkNow, some lastNewHeaderHeight.toNat⟩
  have htotal : ∀ page s, wp Stmt.exec (checkPage services params page)
      (fun _ _ => True) (fun _ => False) s := by
    intro page s
    unfold checkPage
    rw [wp_bind]
    refine wp_foldlM (I := fun _ _ => True) (fun req _ result s _ => ?_) trivial
    rw [wp_bind]
    refine wp_mono (wp_getProof fun _ _ => trivial) (fun r s' (_ : True) => ?_) fun _ h => h
    cases r <;> exact trivial
  have hsheds : Sheds (fun _ => True) key (fun s : Store => uncheckedReqs s.toTables)
      (fun s page => leaves s (checkPage services params page)) (takenBy (goneChecked services params)) :=
    sheds_requests fun page s' _ hpage hnodup => wp_checkPage hpage hnodup
  obtain ⟨read, s', hrun, hperm⟩ := run_sweep hsheds htotal (fun _ => rfl) trivial
    (Nat.lt_succ_of_le (List.length_filter_le _ _) :
      (uncheckedReqs s.toTables).length < s.provenTxReqs.rows.length + 1)
  refine ⟨read, s', ?_, hperm⟩
  rw [find, run_bind_of_ok (run_ask _ s)]
  exact hrun

end CheckForProofs

/-! ## TaskFailAbandoned -/

section FailAbandoned

variable {cutoff : Int}

/-- The row that failing a transaction sets to failed: the first one with its txid. -/
def failedRow (d : Tables) (tx : Transaction) : Option Nat :=
  (tx.txid.bind d.firstTx).map (·.transactionId)

/-- The rows that a page sets to failed. -/
def failedBy (cutoff : Int) (d : Tables) (page : List Transaction) (id : Nat) : Bool :=
  page.any fun tx => aged cutoff tx && failedRow d tx == some id

theorem failedRow_failedTx (tx other : Transaction) :
    failedRow (failedTx d tx) other = failedRow d other := by
  unfold failedRow
  cases other.txid with
  | none => rfl
  | some txid => exact firstTx_failedTx tx txid

theorem failedRow_failedTxs (txs : List Transaction) (other : Transaction) :
    failedRow (txs.foldl failedTx d) other = failedRow d other := by
  induction txs generalizing d with
  | nil => rfl
  | cons tx txs ih => exact ih.trans (failedRow_failedTx tx other)

theorem abandonableTxs_failedTx (tx : Transaction) :
    abandonableTxs (failedTx d tx) =
      (abandonableTxs d).filter fun t => !(failedRow d tx == some t.transactionId) := by
  unfold failedTx failedRow
  cases hfirst : tx.txid.bind d.firstTx with
  | none => exact (List.filter_eq_self.mpr fun _ _ => rfl).symm
  | some f =>
    obtain ⟨txid, htxid, hf⟩ := Option.bind_eq_some_iff.mp hfirst
    simp only [htxid, Option.getD_some, Tables.releaseWhere, Tables.setFirstStatus, hf, Stmt.apply,
      abandonableTxs, Option.map_some]
    refine (Table.find_update_leaving ?_).trans (List.filter_congr fun t _ => ?_)
    · exact fun _ => rfl
    · rw [Option.some_beq_some, BEq.comm]

theorem abandonableTxs_failedTxs (txs : List Transaction) :
    abandonableTxs (txs.foldl failedTx d) =
      (abandonableTxs d).filter fun t => !txs.any fun tx => failedRow d tx == some t.transactionId := by
  induction txs generalizing d with
  | nil => exact (List.filter_eq_self.mpr fun _ _ => rfl).symm
  | cons tx txs ih =>
    rw [List.foldl_cons, ih, abandonableTxs_failedTx, List.filter_filter]
    refine List.filter_congr fun t _ => ?_
    simp only [failedRow_failedTx, List.any_cons, Bool.not_or, Bool.and_comm]

/-- Rows with the txid of a row come before it only. -/
theorem failedRow_le {tx : Transaction} {i : Nat} (htx : tx ∈ d.transactions)
    (h : failedRow d tx = some i) : i ≤ tx.transactionId := by
  obtain ⟨f, hf, rfl⟩ := Option.map_eq_some_iff.mp h
  obtain ⟨txid, htxid, hfirst⟩ := Option.bind_eq_some_iff.mp hf
  exact Table.first_key_le hfirst htx (by simp [htxid])

theorem sheds_failTxs (cutoff : Int) (s₀ : Store) :
    Sheds (fun s : Store => ∀ tx, failedRow s.toTables tx = failedRow s₀.toTables tx) key
      (fun s : Store => abandonableTxs s.toTables)
      (fun s page => leaves s (forM (page.filter (aged cutoff)) failTx))
      (failedBy cutoff s₀.toTables) := by
  intro s before page behind hs hsplit
  have hsplit : s.transactions.find (fun t => abandonable t.status) = before ++ page ++ behind := hsplit
  have hwp : wp Stmt.exec (forM (page.filter (aged cutoff)) failTx)
      (fun _ s' => s'.toTables = (page.filter (aged cutoff)).foldl failedTx s.toTables)
      (fun _ => False) s := wp_failTxs fun _ h => h
  obtain ⟨_, s', hrun, hs'⟩ := wp_total hwp
  have hleaves : leaves s (forM (page.filter (aged cutoff)) failTx) = s' := by
    unfold leaves
    rw [hrun]
  have hby : ∀ i, ((page.filter (aged cutoff)).any fun tx => failedRow s.toTables tx == some i) =
      failedBy cutoff s₀.toTables page i := by
    intro i
    rw [List.any_filter, failedBy]
    simp only [hs]
  have hsorted := s.transactions.sorted.filter fun t => abandonable t.status
  rw [show s.transactions.rows.filter (fun t => abandonable t.status) = before ++ page ++ behind from
    hsplit, List.pairwise_append] at hsorted
  have hbehind : ∀ x ∈ behind, failedBy cutoff s₀.toTables page (key x) = false := by
    intro x hx
    refine List.any_eq_false.mpr fun tx htx hboth => ?_
    rw [Bool.and_eq_true, beq_iff_eq, ← hs] at hboth
    have hin : tx ∈ s.transactions.find fun t => abandonable t.status := by
      rw [hsplit]
      simp [htx]
    have hmem : tx ∈ s.transactions := (Table.mem_find.mp hin).1
    have hle := failedRow_le hmem hboth.2
    have hlt : key tx < key x := hsorted.2.2 tx (by simp [htx]) x hx
    exact absurd hlt (Nat.not_lt.mpr hle)
  simp only [hleaves]
  refine ⟨fun tx => ?_, hbehind, (before ++ page).filter fun t => !failedBy cutoff s₀.toTables page (key t),
    ?_, ?_⟩
  · rw [hs', failedRow_failedTxs, hs]
  · rw [hs', abandonableTxs_failedTxs]
    simp only [hby]
    rw [abandonableTxs, hsplit, List.filter_append]
    exact congrArg _ (List.filter_eq_self.mpr fun x hx => by rw [← Bool.not_false, ← hbehind x hx]; rfl)
  · rw [List.filter_map]
    rfl

/-- The loop of the task is a sweep. -/
theorem failPages_eq (cutoff : Int) (fuel offset : Nat) :
    failPages cutoff fuel offset =
      (Prog.sweep 100 (fun s : Store => abandonableTxs s.toTables)
        (fun txs => forM (txs.filter (aged cutoff)) failTx) fuel offset >>= fun _ => pure ()) := by
  induction fuel generalizing offset with
  | zero => rfl
  | succ fuel ih =>
    unfold failPages Prog.sweep
    rw [find, bind_assoc]
    refine congrArg _ (funext fun txs => ?_)
    by_cases hempty : txs.isEmpty = true
    · rw [if_pos hempty, List.isEmpty_iff.mp hempty]
      rfl
    · rw [if_neg hempty, bind_assoc]
      refine congrArg _ (funext fun _ => ?_)
      by_cases hshort : txs.length < 100
      · rw [if_pos hshort, if_pos hshort]
        rfl
      · rw [if_neg hshort, if_neg hshort, bind_assoc, ih]
        rfl

/-- The run with an answer is the run of the task. -/
theorem failAbandoned_eq (abandonedMsecs : UInt64) :
    failAbandoned abandonedMsecs = (runFailAbandoned abandonedMsecs >>= fun _ => pure ()) := by
  unfold failAbandoned runFailAbandoned
  simp only [failPages_eq, bind_assoc, pure_bind]

theorem runFailAbandoned_reads (abandonedMsecs : UInt64) (s : Store) :
    let cutoff := cutoffOf s.toTables abandonedMsecs
    ∃ read s', (runFailAbandoned abandonedMsecs).run Stmt.exec s =
        (.ok (read.filter fun tx => aged cutoff tx && tx.txid.isSome), s') ∧
      (read ++ overlooked 100 key (failedBy cutoff s.toTables) (s.transactions.rows.length + 1) 0
        (abandonableTxs s.toTables)).Perm (abandonableTxs s.toTables) := by
  intro cutoff
  have htotal : ∀ (page : List Transaction) s, wp Stmt.exec (forM (page.filter (aged cutoff)) failTx)
      (fun _ _ => True) (fun _ => False) s := fun page s => wp_failTxs fun _ _ => trivial
  obtain ⟨read, s', hrun, hperm⟩ := run_sweep (sheds_failTxs cutoff s) htotal (fun _ => rfl)
    (fun _ => rfl) (Nat.lt_succ_of_le (List.length_filter_le _ _) :
      (abandonableTxs s.toTables).length < s.transactions.rows.length + 1)
  refine ⟨read, s', ?_, hperm⟩
  unfold runFailAbandoned
  rw [run_bind_of_ok (rfl : utcNow.run Stmt.exec s = (.ok s.now, s)), find, run_bind_of_ok (run_ask _ s)]
  exact run_bind_of_ok hrun

end FailAbandoned

/-! ## Nobody is left out -/

/-- One run of TaskSendWaiting. -/
theorem runSendWaiting_passes_iff (sdk : Sdk) (bumps : BumpSdk) (services : Services)
    (agedMsecs : UInt64) (includeSending : Bool) (s : Store) :
    let agedLimit := cutoffOf s.toTables agedMsecs
    ∃ passed s', (runSendWaiting sdk bumps services agedMsecs includeSending).run Stmt.exec s =
        (.ok passed, s') ∧
      (PassesEach (agedReq agedLimit) (waitingReqs includeSending s.toTables) passed ↔
        ∀ r ∈ overlookedReqs (gonePosted sdk bumps services agedLimit includeSending s) s.toTables
          (waitingReqs includeSending s.toTables), agedReq agedLimit r = false) := by
  intro agedLimit
  obtain ⟨read, s', hrun, hperm⟩ := runSendWaiting_reads sdk bumps services agedMsecs includeSending s
  refine ⟨_, s', hrun, ?_⟩
  rw [passesEach_iff hperm (Table.nodup_key_find _ _)]
  constructor
  · intro hall r hr
    by_contra hold
    exact (hall r (hperm.mem_iff.mp (List.mem_append_right _ hr)) (by simpa using hold)).2 hr
  · intro hnone r _ hold
    refine ⟨hold, fun hr => ?_⟩
    rw [hnone r hr] at hold
    cases hold

/-- One run of TaskCheckForProofs. -/
theorem runCheckForProofs_passes_iff (services : Services) (limit : UInt32) (checkNow : Bool)
    (height : UInt32) (s : Store) :
    ∃ passed s', (runCheckForProofs services limit checkNow height).run Stmt.exec s =
        (.ok passed, s') ∧
      (PassesEach (fun _ => true) (uncheckedReqs s.toTables) passed ↔
        if height = unknownHeight then uncheckedReqs s.toTables = []
        else overlookedReqs (goneChecked services ⟨limit, checkNow, some height.toNat⟩) s.toTables
          (uncheckedReqs s.toTables) = []) := by
  obtain ⟨read, s', hrun, hperm⟩ := runCheckForProofs_reads services limit checkNow height s
  refine ⟨read, s', hrun, ?_⟩
  have hiff := @passesEach_iff _ _ (fun _ => true) (fun _ => true) _ _ _ hperm
    (Table.nodup_key_find _ _)
  rw [List.filter_eq_self.mpr fun _ _ => rfl] at hiff
  rw [hiff, ← apply_ite (· = []), List.eq_nil_iff_forall_not_mem]
  constructor
  · intro hall r hr
    exact (hall r (hperm.mem_iff.mp (List.mem_append_right _ hr)) rfl).2 hr
  · exact fun hnone r _ _ => ⟨rfl, hnone r⟩

/-- One run of TaskFailAbandoned. -/
theorem runFailAbandoned_passes_iff (abandonedMsecs : UInt64) (s : Store) :
    let cutoff := cutoffOf s.toTables abandonedMsecs
    ∃ passed s', (runFailAbandoned abandonedMsecs).run Stmt.exec s = (.ok passed, s') ∧
      (PassesEach (aged cutoff) (abandonableTxs s.toTables) passed ↔
        (∀ tx ∈ overlooked 100 key (failedBy cutoff s.toTables) (s.transactions.rows.length + 1) 0
          (abandonableTxs s.toTables), aged cutoff tx = false) ∧
        ∀ tx ∈ abandonableTxs s.toTables, aged cutoff tx = true → tx.txid ≠ none) := by
  intro cutoff
  obtain ⟨read, s', hrun, hperm⟩ := runFailAbandoned_reads abandonedMsecs s
  refine ⟨_, s', hrun, ?_⟩
  rw [passesEach_iff hperm (Table.nodup_key_find _ _)]
  constructor
  · intro hall
    refine ⟨fun tx htx => ?_, fun tx htx hold hnone => ?_⟩
    · by_contra hold
      exact (hall tx (hperm.mem_iff.mp (List.mem_append_right _ htx)) (by simpa using hold)).2 htx
    · have hthrough := (hall tx htx hold).1
      rw [hold, hnone] at hthrough
      cases hthrough
  · rintro ⟨hnone, hnamed⟩ tx htx hold
    refine ⟨?_, fun hover => ?_⟩
    · rw [hold, Bool.true_and, Option.isSome_iff_ne_none]
      exact hnamed tx htx hold
    · rw [hnone tx hover] at hold
      cases hold

/-- Each of the three tasks passes on every eligible row exactly once if and only if no eligible row is
overlooked behind a full page; for proofs a header height must be known, and a transaction can be failed
under its txid only. -/
theorem sweeps_pass_each_iff (sdk : Sdk) (bumps : BumpSdk) (services : Services) (s : Store) :
    (∀ agedMsecs includeSending, ∃ passed s',
      (runSendWaiting sdk bumps services agedMsecs includeSending).run Stmt.exec s =
        (.ok passed, s') ∧
      (PassesEach (agedReq (cutoffOf s.toTables agedMsecs)) (waitingReqs includeSending s.toTables)
          passed ↔
        ∀ r ∈ overlookedReqs (gonePosted sdk bumps services (cutoffOf s.toTables agedMsecs)
            includeSending s) s.toTables (waitingReqs includeSending s.toTables),
          agedReq (cutoffOf s.toTables agedMsecs) r = false)) ∧
    (∀ limit checkNow height, ∃ passed s',
      (runCheckForProofs services limit checkNow height).run Stmt.exec s = (.ok passed, s') ∧
      (PassesEach (fun _ => true) (uncheckedReqs s.toTables) passed ↔
        if height = unknownHeight then uncheckedReqs s.toTables = []
        else overlookedReqs (goneChecked services ⟨limit, checkNow, some height.toNat⟩) s.toTables
          (uncheckedReqs s.toTables) = [])) ∧
    (∀ abandonedMsecs, ∃ passed s',
      (runFailAbandoned abandonedMsecs).run Stmt.exec s = (.ok passed, s') ∧
      (PassesEach (aged (cutoffOf s.toTables abandonedMsecs)) (abandonableTxs s.toTables) passed ↔
        (∀ tx ∈ overlooked 100 key (failedBy (cutoffOf s.toTables abandonedMsecs) s.toTables)
            (s.transactions.rows.length + 1) 0 (abandonableTxs s.toTables),
          aged (cutoffOf s.toTables abandonedMsecs) tx = false) ∧
        ∀ tx ∈ abandonableTxs s.toTables, aged (cutoffOf s.toTables abandonedMsecs) tx = true →
          tx.txid ≠ none)) :=
  ⟨fun agedMsecs includeSending =>
      runSendWaiting_passes_iff sdk bumps services agedMsecs includeSending s,
    fun limit checkNow height => runCheckForProofs_passes_iff services limit checkNow height s,
    fun abandonedMsecs => runFailAbandoned_passes_iff abandonedMsecs s⟩

/-- The services find a proof in block 7 for every request. -/
def mined : Services :=
  { Sample.answering "success" with
    getMerklePath := fun _ =>
      { merklePath := some [7], header := some { height := 7, hash := "block7", merkleRoot := "root7" } } }

/-- Of 101 unmined requests that are all mined by now the last one is not looked up. -/
theorem sweep_leaves_one_out :
    ∃ passed s', (runCheckForProofs mined 144 true 10).run Stmt.exec (Sample.requests .unmined 101) =
        (.ok passed, s') ∧
      ¬PassesEach (fun _ => true) (uncheckedReqs (Sample.requests .unmined 101).toTables) passed := by
  obtain ⟨passed, s', hrun, hiff⟩ :=
    runCheckForProofs_passes_iff mined 144 true 10 (Sample.requests .unmined 101)
  refine ⟨passed, s', hrun, fun hall => ?_⟩
  have hnone := hiff.mp hall
  rw [if_neg (by decide : (10 : UInt32) ≠ unknownHeight)] at hnone
  have hone : (overlookedReqs (goneChecked mined ⟨144, true, some (10 : UInt32).toNat⟩)
      (Sample.requests .unmined 101).toTables
      (uncheckedReqs (Sample.requests .unmined 101).toTables)).length = 1 := by
    decide +kernel
  rw [hnone] at hone
  cases hone

end WalletToolbox.Monitor
