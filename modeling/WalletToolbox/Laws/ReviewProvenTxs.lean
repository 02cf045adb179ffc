import WalletToolbox.Laws.Statements
import WalletToolbox.Monitor.TaskReviewProvenTxs
import WalletToolbox.Sample

/-! # What the review of proofs reaches

A completed run gives every row that it finds a verdict, and an error of the chain tracker is one of
them.
So the last reviewed height covers rows without a judgement exactly when some completed run met
such an error. -/

namespace WalletToolbox.Monitor

open WalletToolbox.Lib WalletToolbox.Lib.Calls WalletToolbox.Storage

/-! ## One row -/

/-- The record with the proof that the services have now, when it is another one. -/
def CheckAnswers.newProof (answers : CheckAnswers) (ptx : ProvenTx) : Option ProvenTx :=
  match (answers.services.getMerklePath ptx.txid).merklePath,
      (answers.services.getMerklePath ptx.txid).header with
  | some merklePath, some header =>
    if ptx.height = header.height ∧ ptx.blockHash = header.hash ∧
        ptx.merkleRoot = header.merkleRoot ∧ ptx.merklePath = merklePath then none
    else some (ptx.reproved merklePath header)
  | _, _ => none

/-- The verdict on a row. -/
def CheckAnswers.verdict (answers : CheckAnswers) (height : Nat) (ptx : ProvenTx) : Verdict :=
  match answers.tracker ptx.merkleRoot height with
  | .error _ => .trackerError
  | .ok true => .confirmed
  | .ok false =>
    match (answers.services.getMerklePath ptx.txid).merklePath,
        (answers.services.getMerklePath ptx.txid).header with
    | some _, some _ => if (answers.newProof ptx).isSome then .reproved else .unchanged
    | _, _ => .unavailable

/-- What the check of `ptx` makes of the row with its id. -/
def CheckAnswers.rewrite (answers : CheckAnswers) (height now : Nat) (ptx row : ProvenTx) : ProvenTx :=
  match answers.tracker ptx.merkleRoot height, answers.newProof ptx with
  | .ok false, some updated => updated.reproveUpdate.apply now row
  | _, _ => row

theorem CheckAnswers.rewrite_key (answers : CheckAnswers) (height now : Nat) (ptx row : ProvenTx) :
    key (answers.rewrite height now ptx row) = key row := by
  unfold rewrite
  split <;> rfl

/-- What a check does to the database. -/
def CheckAnswers.effect (answers : CheckAnswers) (height : Nat) (d : Tables) (ptx : ProvenTx) : Tables :=
  { d with
    provenTxs := d.provenTxs.update (fun row => key row == key ptx)
      (answers.rewrite height d.now ptx) (answers.rewrite_key height d.now ptx) }

/-- The fields of the task are those of another state. -/
structure SameReview (w w' : ProvenReview) : Prop where
  lastReviewedHeight : w'.lastReviewedHeight = w.lastReviewedHeight
  passed : w'.passed = w.passed

theorem SameReview.refl (w : ProvenReview) : SameReview w w := ⟨rfl, rfl⟩

theorem SameReview.trans {w₁ w₂ w₃ : ProvenReview} (h : SameReview w₁ w₂) (h' : SameReview w₂ w₃) :
    SameReview w₁ w₃ :=
  ⟨h'.lastReviewedHeight.trans h.lastReviewedHeight, h'.passed.trans h.passed⟩

section Rows

variable {answers : CheckAnswers} {height : Nat} {w : ProvenReview}

theorem effect_of_kept {d : Tables} {ptx : ProvenTx} (h : ∀ row, answers.rewrite height d.now ptx row = row) :
    answers.effect height d ptx = d := by
  unfold CheckAnswers.effect
  rw [Table.update_none fun row _ _ => h row]

/-- The engine never refuses to rewrite a proof. -/
theorem exec_updateProvenTx {id : Nat} {p : ProvenTxPartial} (htxid : p.txid = none) (s : Store) :
    ∃ n s', (Stmt.updateProvenTx id p).exec s = .ok (n, s') := by
  have hkey : ∀ r, key (p.apply s.now r) = key r := fun _ => rfl
  have hkept : ∀ r, (p.apply s.now r).txid = r.txid := fun r => by
    simp only [ProvenTxPartial.apply, htxid, Option.getD_none]
  have hforeign : ((Stmt.updateProvenTx id p).apply s.toTables).2.ForeignKeys :=
    { s.foreign with
      transactionProvenTx := s.foreign.transactionProvenTx.update_target hkey
      reqProvenTx := s.foreign.reqProvenTx.update_target hkey }
  have hunique : ((Stmt.updateProvenTx id p).apply s.toTables).2.UniqueKeys :=
    { s.unique with provenTxs := s.unique.provenTxs.update hkey hkept }
  exact ⟨_, _, exec_of_constraints hforeign hunique⟩

/-- What a result of `reprove_proven` adds to an audit. -/
def Tells (verdict : Verdict) (height : Nat) (ptx : ProvenTx) (result : ReproveProvenResult) : Prop :=
  ∀ a : HeightAudit, (a.reprove height ptx result).verdicts = a.verdicts ++ [(ptx, verdict)] ∧
    (a.reprove height ptx result).audit.passed = a.audit.passed

/-- A root that is not confirmed is judged by what the services answer. -/
theorem verdict_of_answers {ptx : ProvenTx} {merklePath : Bytes} {header : BlockHeader}
    (hroot : answers.tracker ptx.merkleRoot height = .ok false)
    (hpath : (answers.services.getMerklePath ptx.txid).merklePath = some merklePath)
    (hheader : (answers.services.getMerklePath ptx.txid).header = some header) :
    answers.verdict height ptx =
      if (answers.newProof ptx).isSome then .reproved else .unchanged := by
  unfold CheckAnswers.verdict
  rw [hroot, hpath, hheader]

theorem verdict_of_no_answers {ptx : ProvenTx}
    (hroot : answers.tracker ptx.merkleRoot height = .ok false)
    (hnone : ∀ merklePath header,
      (answers.services.getMerklePath ptx.txid).merklePath = some merklePath →
      (answers.services.getMerklePath ptx.txid).header = some header → False) :
    answers.verdict height ptx = .unavailable := by
  unfold CheckAnswers.verdict
  rw [hroot]
  cases hpath : (answers.services.getMerklePath ptx.txid).merklePath with
  | none => rfl
  | some merklePath =>
    cases hheader : (answers.services.getMerklePath ptx.txid).header with
    | none => rfl
    | some header => exact (hnone merklePath header hpath hheader).elim

theorem wp_reproveProven_effect {ptx : ProvenTx} {s : Store}
    (hroot : answers.tracker ptx.merkleRoot height = .ok false) :
    Prog.wp Stmt.exec (reproveProven answers.services ptx false)
      (fun result s' => s'.toTables = answers.effect height s.toTables ptx ∧
        Tells (answers.verdict height ptx) height ptx result) (fun _ => False) s := by
  have hkept : answers.newProof ptx = none → s.toTables = answers.effect height s.toTables ptx := by
    intro hnone
    refine (effect_of_kept fun row => ?_).symm
    unfold CheckAnswers.rewrite
    rw [hroot, hnone]
  unfold reproveProven
  split
  · rename_i merklePath header hpath hheader
    have hverdict := verdict_of_answers hroot hpath hheader
    split
    · rename_i hsame
      have hnone : answers.newProof ptx = none := by
        unfold CheckAnswers.newProof
        rw [hpath, hheader]
        exact if_pos hsame
      refine ⟨hkept hnone, fun a => ?_⟩
      rw [hverdict, hnone]
      exact ⟨rfl, rfl⟩
    · rename_i hchanged
      have hnew : answers.newProof ptx = some (ptx.reproved merklePath header) := by
        unfold CheckAnswers.newProof
        rw [hpath, hheader]
        exact if_neg hchanged
      rw [if_pos (Bool.not_false ▸ rfl), Prog.wp_bind]
      obtain ⟨_, _, hexecutes⟩ := @exec_updateProvenTx ptx.provenTxId
        (ptx.reproved merklePath header).reproveUpdate rfl s
      refine wp_exec' (fun n s' hexec => ⟨?_, fun a => ?_⟩) fun e he => ?_
      · rw [(exec_eq hexec).2]
        unfold CheckAnswers.effect
        have hrewrite : answers.rewrite height s.now ptx =
            (ptx.reproved merklePath header).reproveUpdate.apply s.now := by
          funext row
          unfold CheckAnswers.rewrite
          rw [hroot, hnew]
        simp only [Stmt.apply, hrewrite]
        rfl
      · rw [hverdict, hnew]
        exact ⟨rfl, rfl⟩
      · rw [hexecutes] at he
        cases he
  · rename_i hnone
    have hnoproof : answers.newProof ptx = none := by
      unfold CheckAnswers.newProof
      split
      · rename_i hpath hheader
        exact absurd hheader (hnone _ _ hpath)
      · rfl
    refine ⟨hkept hnoproof, fun a => ?_⟩
    rw [verdict_of_no_answers hroot hnone]
    exact ⟨rfl, rfl⟩

/-- `reprove_proven` fails and changes nothing, or it does what its result says. -/
theorem leaves_reproveRowOf {ptx : ProvenTx} (hroot : answers.tracker ptx.merkleRoot height = .ok false) :
    Leaves (reproveRowOf answers ptx)
      (fun result w' => SameReview w w' ∧
        w'.store.toTables = answers.effect height w.store.toTables ptx ∧
        Tells (answers.verdict height ptx) height ptx result ∧ answers.fault = none)
      (fun w' => SameReview w w' ∧ answers.fault ≠ none) w := by
  have hwp := @wp_reproveProven_effect answers height ptx w.store hroot
  unfold Leaves
  cases hfault : answers.fault with
  | some e =>
    have houtcome : outcome (reproveRowOf answers ptx) w = (.error e, w) := by
      unfold reproveRowOf
      rw [hfault]
      rfl
    rw [houtcome]
    exact ⟨SameReview.refl w, Option.some_ne_none e⟩
  | none =>
    have houtcome : outcome (reproveRowOf answers ptx) w =
        (((reproveProven answers.services ptx false).run Stmt.exec w.store).1, { w with
          store := ((reproveProven answers.services ptx false).run Stmt.exec w.store).2 }) := by
      unfold reproveRowOf
      rw [hfault]
      rfl
    rw [houtcome]
    unfold Prog.wp at hwp
    rcases hrun : (reproveProven answers.services ptx false).run Stmt.exec w.store with ⟨_ | result, s'⟩
    · rw [hrun] at hwp
      exact hwp.elim
    · rw [hrun] at hwp
      exact ⟨⟨rfl, rfl⟩, hwp.1, hwp.2, rfl⟩

/-- The check of a row does not fail: `reprove_proven` works where it is called. -/
def CheckAnswers.Works (answers : CheckAnswers) (height : Nat) (ptx : ProvenTx) : Prop :=
  answers.tracker ptx.merkleRoot height = .ok false → answers.fault = none

theorem leaves_checkRow (answers : CheckAnswers) (height : Nat) (a : HeightAudit) (ptx : ProvenTx)
    (w : ProvenReview) :
    Leaves (checkRow answers height a ptx)
      (fun a' w' => SameReview w w' ∧
        w'.store.toTables = answers.effect height w.store.toTables ptx ∧
        a'.verdicts = a.verdicts ++ [(ptx, answers.verdict height ptx)] ∧
        a'.audit.passed = a.audit.passed ∧ answers.Works height ptx)
      (fun w' => SameReview w w' ∧ ¬answers.Works height ptx) w := by
  unfold checkRow
  cases hroot : answers.tracker ptx.merkleRoot height with
  | error e =>
    rw [leaves_pure]
    refine ⟨SameReview.refl w, (effect_of_kept fun row => ?_).symm, ?_, rfl, fun hfalse => ?_⟩
    · unfold CheckAnswers.rewrite
      rw [hroot]
    · unfold CheckAnswers.verdict
      rw [hroot]
      rfl
    · rw [hroot] at hfalse
      cases hfalse
  | ok valid =>
    cases valid with
    | true =>
      rw [leaves_pure]
      refine ⟨SameReview.refl w, (effect_of_kept fun row => ?_).symm, ?_, rfl, fun hfalse => ?_⟩
      · unfold CheckAnswers.rewrite
        rw [hroot]
      · unfold CheckAnswers.verdict
        rw [hroot]
        rfl
      · rw [hroot] at hfalse
        cases hfalse
    | false =>
      rw [leaves_bind]
      refine (leaves_reproveRowOf hroot).mono (fun result w' h => ?_)
        fun _ h => ⟨h.1, fun hworks => h.2 (hworks hroot)⟩
      obtain ⟨hsame, hstore, hresult, hfault⟩ := h
      rw [leaves_pure]
      obtain ⟨hverdicts, hpassed⟩ := hresult a.mismatch
      exact ⟨hsame, hstore, hverdicts, hpassed, fun _ => hfault⟩

theorem verdict_trackerError_iff {ptx : ProvenTx} :
    answers.verdict height ptx = .trackerError ↔ (answers.tracker ptx.merkleRoot height).isOk = false := by
  unfold CheckAnswers.verdict
  split
  · rename_i hroot
    simp [hroot, Except.isOk, Except.toBool]
  · rename_i hroot
    simp [hroot, Except.isOk, Except.toBool]
  · rename_i hroot
    simp only [hroot, Except.isOk, Except.toBool, Bool.true_eq_false, iff_false]
    split
    · split <;> rintro ⟨⟩
    · rintro ⟨⟩

end Rows

/-! ## One height after another -/

/-- The database after the rows at a height were checked. -/
def RunAnswers.atHeight (answers : RunAnswers) (d : Tables) (height : Nat) : Tables :=
  (d.provenTxs.find (·.height == height)).foldl
    (fun d ptx => (answers.check height ptx.provenTxId).effect height d ptx) d

/-- What is recorded of a height. -/
def RunAnswers.pass (answers : RunAnswers) (d : Tables) (height : Nat) : Passed :=
  let rows := d.provenTxs.find (·.height == height)
  ⟨height, rows, rows.map fun ptx => (ptx, (answers.check height ptx.provenTxId).verdict height ptx)⟩

/-- What a run records that passes the given heights. -/
def RunAnswers.passes (answers : RunAnswers) : List Nat → Tables → List Passed
  | [], _ => []
  | height :: heights, d =>
    answers.pass d height :: answers.passes heights (answers.atHeight d height)

/-- At every one of the heights the chain tracker answers for each row that is stored there when the
run comes to it. -/
def RunAnswers.Judged (answers : RunAnswers) : List Nat → Tables → Prop
  | [], _ => True
  | height :: heights, d =>
    (∀ row ∈ d.provenTxs, row.height = height →
      ((answers.check height row.provenTxId).tracker row.merkleRoot height).isOk = true) ∧
    answers.Judged heights (answers.atHeight d height)

/-- At none of the heights a read of `proven_txs` or a call of `reprove_proven` fails. -/
def RunAnswers.Works (answers : RunAnswers) : List Nat → Tables → Prop
  | [], _ => True
  | height :: heights, d =>
    answers.findProvenTxs height = none ∧
    (∀ row ∈ d.provenTxs, row.height = height →
      (answers.check height row.provenTxId).Works height row) ∧
    answers.Works heights (answers.atHeight d height)

/-- The heights of a run. -/
def RunAnswers.heights (answers : RunAnswers) (task : TaskReviewProvenTxs) (lastReviewedHeight : Nat) :
    List Nat :=
  match answers.getHeight with
  | .error _ => []
  | .ok tip =>
    let maxEligible := tip - task.minBlockAge
    if maxEligible = 0 ∨ maxEligible ≤ lastReviewedHeight then []
    else
      let (start, stop) := task.range lastReviewedHeight maxEligible
      List.range' start (stop + 1 - start)

section Heights

variable {task : TaskReviewProvenTxs} {answers : RunAnswers} {w w' : ProvenReview}

theorem leaves_checkRows (check : Nat → CheckAnswers) (height : Nat) (rows : List ProvenTx)
    (a : HeightAudit) (w : ProvenReview) :
    Leaves (rows.foldlM (fun a ptx => checkRow (check ptx.provenTxId) height a ptx) a)
      (fun a' w' => SameReview w w' ∧
        w'.store.toTables = rows.foldl (fun d ptx => (check ptx.provenTxId).effect height d ptx)
          w.store.toTables ∧
        a'.verdicts = a.verdicts ++ rows.map (fun ptx => (ptx, (check ptx.provenTxId).verdict height ptx)) ∧
        a'.audit.passed = a.audit.passed ∧ ∀ ptx ∈ rows, (check ptx.provenTxId).Works height ptx)
      (fun w' => SameReview w w' ∧ ¬∀ ptx ∈ rows, (check ptx.provenTxId).Works height ptx) w := by
  induction rows generalizing a w with
  | nil => exact ⟨SameReview.refl w, rfl, (List.append_nil _).symm, rfl, nofun⟩
  | cons ptx rows ih =>
    rw [List.foldlM_cons, leaves_bind]
    refine (leaves_checkRow _ height a ptx w).mono (fun a₁ w₁ h₁ => ?_)
      fun _ h => ⟨h.1, fun hworks => h.2 (hworks ptx List.mem_cons_self)⟩
    obtain ⟨hsame, hstore, hverdicts, hpassed, hworks⟩ := h₁
    refine (ih a₁ w₁).mono (fun a' w' h => ?_)
      fun _ h => ⟨hsame.trans h.1, fun hworks => h.2 fun p hp => hworks p (List.mem_cons_of_mem _ hp)⟩
    obtain ⟨hsame', hstore', hverdicts', hpassed', hworks'⟩ := h
    refine ⟨hsame.trans hsame', ?_, ?_, hpassed'.trans hpassed, List.forall_mem_cons.mpr ⟨hworks, hworks'⟩⟩
    · rw [hstore', hstore, List.foldl_cons]
    · rw [hverdicts', hverdicts, List.append_assoc, List.map_cons, List.singleton_append]

theorem leaves_auditHeight (audit : Audit) (height : Nat) (w : ProvenReview) :
    Leaves (auditHeight answers audit height)
      (fun audit' w' => SameReview w w' ∧ w'.store.toTables = answers.atHeight w.store.toTables height ∧
        audit'.passed = audit.passed ++ [answers.pass w.store.toTables height] ∧
        answers.findProvenTxs height = none ∧
        ∀ row ∈ w.store.provenTxs, row.height = height →
          (answers.check height row.provenTxId).Works height row)
      (fun w' => SameReview w w' ∧ ¬(answers.findProvenTxs height = none ∧
        ∀ row ∈ w.store.provenTxs, row.height = height →
          (answers.check height row.provenTxId).Works height row)) w := by
  unfold auditHeight
  cases hfind : answers.findProvenTxs height with
  | some e => exact ⟨SameReview.refl w, nofun⟩
  | none =>
    rw [leaves_bind, leaves_get, leaves_bind]
    refine (leaves_checkRows (answers.check height) height _ _ w).mono (fun a w' h => ?_)
      fun _ h => ⟨h.1, fun hworks => h.2 fun row hrow => ?_⟩
    swap
    · obtain ⟨hrow, hheight⟩ := Table.mem_find.mp hrow
      exact hworks.2 row hrow (beq_iff_eq.mp hheight)
    obtain ⟨hsame, hstore, hverdicts, hpassed, hworks⟩ := h
    rw [leaves_pure]
    refine ⟨hsame, hstore, ?_, rfl, fun row hrow hheight => ?_⟩
    · rw [hpassed, hverdicts]
      rfl
    · exact hworks row (Table.mem_find.mpr ⟨hrow, beq_iff_eq.mpr hheight⟩)

theorem leaves_auditHeights (heights : List Nat) (audit : Audit) (w : ProvenReview) :
    Leaves (heights.foldlM (auditHeight answers) audit)
      (fun audit' w' => SameReview w w' ∧
        audit'.passed = audit.passed ++ answers.passes heights w.store.toTables ∧
        answers.Works heights w.store.toTables)
      (fun w' => SameReview w w' ∧ ¬answers.Works heights w.store.toTables) w := by
  induction heights generalizing audit w with
  | nil => exact ⟨SameReview.refl w, (List.append_nil _).symm, trivial⟩
  | cons height heights ih =>
    rw [List.foldlM_cons, leaves_bind]
    refine (leaves_auditHeight audit height w).mono (fun audit₁ w₁ h₁ => ?_)
      fun _ h => ⟨h.1, fun hworks => h.2 ⟨hworks.1, hworks.2.1⟩⟩
    obtain ⟨hsame, hstore, hpassed, hworks⟩ := h₁
    refine (ih audit₁ w₁).mono (fun audit' w' h => ?_)
      fun _ h => ⟨hsame.trans h.1, fun hworks => h.2 (hstore ▸ hworks.2.2)⟩
    refine ⟨hsame.trans h.1, ?_, hworks.1, hworks.2, hstore ▸ h.2.2⟩
    rw [h.2.1, hpassed, hstore, List.append_assoc, List.singleton_append, RunAnswers.passes]

/-- Nothing but the chain tracker can stand in the way of a run. -/
structure RunAnswers.Unhindered (answers : RunAnswers) (task : TaskReviewProvenTxs)
    (w : ProvenReview) : Prop where
  getHeight : answers.getHeight.isOk = true
  getChainTracker : answers.getChainTracker.isOk = true
  works : answers.Works (answers.heights task w.lastReviewedHeight) w.store.toTables

/-- What a completed run leaves. -/
structure Completed (task : TaskReviewProvenTxs) (answers : RunAnswers) (w w' : ProvenReview) : Prop where
  advances : w.lastReviewedHeight ≤ w'.lastReviewedHeight
  heights : ∀ height, height ∈ answers.heights task w.lastReviewedHeight ↔
    w.lastReviewedHeight < height ∧ height ≤ w'.lastReviewedHeight
  passed : w'.passed =
    w.passed ++ answers.passes (answers.heights task w.lastReviewedHeight) w.store.toTables
  unhindered : answers.heights task w.lastReviewedHeight = [] ∨ answers.Unhindered task w

theorem heights_nothing {tip last : Nat} (htip : answers.getHeight = .ok tip)
    (h : tip - task.minBlockAge = 0 ∨ tip - task.minBlockAge ≤ last) : answers.heights task last = [] := by
  unfold RunAnswers.heights
  rw [htip]
  exact if_pos h

theorem heights_range {tip last : Nat} (htip : answers.getHeight = .ok tip)
    (h : ¬(tip - task.minBlockAge = 0 ∨ tip - task.minBlockAge ≤ last)) :
    answers.heights task last =
      List.range' (last + 1) ((task.range last (tip - task.minBlockAge)).2 + 1 - (last + 1)) := by
  unfold RunAnswers.heights
  rw [htip]
  exact if_neg h

theorem leaves_runReviewProvenTxs :
    Leaves (runReviewProvenTxs task answers) (fun _ w' => Completed task answers w w')
      (fun w' => SameReview w w' ∧ ¬answers.Unhindered task w) w := by
  unfold runReviewProvenTxs
  cases htip : answers.getHeight with
  | error e =>
    refine ⟨SameReview.refl w, fun h => ?_⟩
    have hok := h.getHeight
    rw [htip] at hok
    cases hok
  | ok tip =>
    simp only
    rw [leaves_bind, leaves_get]
    by_cases hnothing : tip - task.minBlockAge = 0 ∨ tip - task.minBlockAge ≤ w.lastReviewedHeight
    · have hheights := heights_nothing htip hnothing
      rw [if_pos hnothing, leaves_bind, leaves_modify, leaves_pure]
      refine ⟨Nat.le_refl _, fun height => ?_, ?_, .inl hheights⟩
      · rw [hheights]
        show height ∈ [] ↔ w.lastReviewedHeight < height ∧ height ≤ w.lastReviewedHeight
        simp only [List.not_mem_nil, false_iff]
        omega
      · rw [hheights]
        exact (List.append_nil _).symm
    · have hheights := heights_range htip hnothing
      rw [if_neg hnothing]
      generalize hrange : task.range w.lastReviewedHeight (tip - task.minBlockAge) = range at hheights
      have hstop : w.lastReviewedHeight ≤ range.2 := by
        rw [← hrange, TaskReviewProvenTxs.range]
        simp only
        omega
      have hstart : range.1 = w.lastReviewedHeight + 1 := by
        rw [← hrange]
        rfl
      cases htracker : answers.getChainTracker with
      | error e =>
        refine ⟨SameReview.refl w, fun h => ?_⟩
        have hok := h.getChainTracker
        rw [htracker] at hok
        cases hok
      | ok _ =>
        simp only
        rw [hstart, ← hheights, leaves_bind]
        refine (leaves_auditHeights _ {} w).mono (fun audit w₁ h => ?_)
          fun _ h => ⟨h.1, fun hfree => h.2 hfree.works⟩
        rw [leaves_bind, leaves_modify, leaves_pure]
        refine ⟨hstop, fun height => ?_, ?_, .inr ⟨by rw [htip]; rfl, by rw [htracker]; rfl, h.2.2⟩⟩
        · rw [hheights, List.mem_range'_1]
          show _ ↔ w.lastReviewedHeight < height ∧ height ≤ range.2
          omega
        · show w₁.passed ++ audit.passed = _
          rw [h.1.passed, h.2.1]
          rfl

end Heights

/-! ## The last reviewed height -/

/-- A verdict that settles a row. -/
def Verdict.Settles (v : Verdict) : Prop :=
  v = .confirmed ∨ v = .reproved ∨ v = .unavailable ∨ v = .unchanged

/-- What the last reviewed height stands for. -/
structure ReviewedUpTo (w : ProvenReview) : Prop where
  complete : ∀ height, 0 < height → height ≤ w.lastReviewedHeight → ∃ p ∈ w.passed, p.height = height
  judged : ∀ p ∈ w.passed, p.height ≤ w.lastReviewedHeight → ∀ row ∈ p.rows,
    ∃ v : Verdict, (row, v) ∈ p.verdicts ∧ v.Settles
  ahead : ∀ p ∈ w.passed, ∀ row, (row, Verdict.trackerError) ∈ p.verdicts →
    w.lastReviewedHeight < p.height

/-- What every sequence of runs keeps. -/
structure Recorded (w : ProvenReview) : Prop where
  complete : ∀ height, 0 < height → height ≤ w.lastReviewedHeight → ∃ p ∈ w.passed, p.height = height
  heights : ∀ p ∈ w.passed, p.height ≤ w.lastReviewedHeight
  rows : ∀ p ∈ w.passed, p.verdicts.map (·.1) = p.rows

/-- No check of a passed height ended in an error of the chain tracker. -/
def NoTrackerError (passed : List Passed) : Prop :=
  ∀ p ∈ passed, ∀ row, (row, Verdict.trackerError) ∉ p.verdicts

section Last

variable {task : TaskReviewProvenTxs} {answers : RunAnswers} {w w' : ProvenReview}

theorem Recorded.upTo_iff (h : Recorded w) : ReviewedUpTo w ↔ NoTrackerError w.passed := by
  constructor
  · intro hreviewed p hp row hrow
    have hahead := hreviewed.ahead p hp row hrow
    have hbehind := h.heights p hp
    omega
  · intro hno
    refine ⟨h.complete, fun p hp _ row hrow => ?_, fun p hp row hrow => absurd hrow (hno p hp row)⟩
    rw [← h.rows p hp] at hrow
    obtain ⟨⟨row, v⟩, hmem, rfl⟩ := List.mem_map.mp hrow
    refine ⟨v, hmem, ?_⟩
    cases v with
    | trackerError => exact absurd hmem (hno p hp row)
    | confirmed => exact .inl rfl
    | reproved => exact .inr (.inl rfl)
    | unavailable => exact .inr (.inr (.inl rfl))
    | unchanged => exact .inr (.inr (.inr rfl))

theorem mem_passes {heights : List Nat} {d : Tables} {p : Passed} (h : p ∈ answers.passes heights d) :
    p.height ∈ heights ∧ p.verdicts.map (·.1) = p.rows := by
  induction heights generalizing d with
  | nil => cases h
  | cons height heights ih =>
    rcases List.mem_cons.mp h with rfl | h
    · exact ⟨List.mem_cons_self, (List.map_map ..).trans (List.map_id _)⟩
    · exact ⟨List.mem_cons_of_mem _ (ih h).1, (ih h).2⟩

theorem exists_pass {heights : List Nat} {d : Tables} {height : Nat} (h : height ∈ heights) :
    ∃ p ∈ answers.passes heights d, p.height = height := by
  induction heights generalizing d with
  | nil => cases h
  | cons first heights ih =>
    rcases List.mem_cons.mp h with rfl | h
    · exact ⟨_, List.mem_cons_self, rfl⟩
    · obtain ⟨p, hp, hheight⟩ := ih h
      exact ⟨p, List.mem_cons_of_mem _ hp, hheight⟩

/-- A run records no error exactly when the chain tracker answers for the rows that it finds. -/
theorem noTrackerError_passes {heights : List Nat} {d : Tables} :
    NoTrackerError (answers.passes heights d) ↔ answers.Judged heights d := by
  induction heights generalizing d with
  | nil => exact ⟨fun _ => trivial, fun _ _ hp => nomatch hp⟩
  | cons height heights ih =>
    rw [RunAnswers.passes, RunAnswers.Judged, ← ih]
    have hpass : (∀ row, (row, Verdict.trackerError) ∉ (answers.pass d height).verdicts) ↔
        ∀ row ∈ d.provenTxs, row.height = height →
          ((answers.check height row.provenTxId).tracker row.merkleRoot height).isOk = true := by
      simp only [RunAnswers.pass, List.mem_map, Prod.mk.injEq, verdict_trackerError_iff, not_exists,
        not_and, Table.mem_find, beq_iff_eq, Bool.not_eq_false]
      constructor
      · intro h row hrow hheight
        exact h row row ⟨hrow, hheight⟩ rfl
      · rintro h row row' ⟨hrow, hheight⟩ -
        exact h row' hrow hheight
    rw [← hpass]
    constructor
    · exact fun h => ⟨h _ List.mem_cons_self, fun p hp => h p (List.mem_cons_of_mem _ hp)⟩
    · rintro ⟨hfirst, hrest⟩ p hp
      rcases List.mem_cons.mp hp with rfl | hp
      · exact hfirst
      · exact hrest p hp

theorem SameReview.recorded (h : SameReview w w') (hw : Recorded w) : Recorded w' := by
  constructor
  · rw [h.lastReviewedHeight, h.passed]
    exact hw.complete
  · rw [h.lastReviewedHeight, h.passed]
    exact hw.heights
  · rw [h.passed]
    exact hw.rows

theorem Completed.recorded (h : Completed task answers w w') (hw : Recorded w) : Recorded w' := by
  constructor
  · intro height hpos hle
    rw [h.passed]
    by_cases hold : height ≤ w.lastReviewedHeight
    · obtain ⟨p, hp, hheight⟩ := hw.complete height hpos hold
      exact ⟨p, List.mem_append_left _ hp, hheight⟩
    · obtain ⟨p, hp, hheight⟩ := exists_pass ((h.heights height).mpr ⟨by omega, hle⟩)
      exact ⟨p, List.mem_append_right _ hp, hheight⟩
  · intro p hp
    rw [h.passed] at hp
    rcases List.mem_append.mp hp with hp | hp
    · exact Nat.le_trans (hw.heights p hp) h.advances
    · exact ((h.heights p.height).mp (mem_passes hp).1).2
  · intro p hp
    rw [h.passed] at hp
    rcases List.mem_append.mp hp with hp | hp
    · exact hw.rows p hp
    · exact (mem_passes hp).2

/-- A run in which nothing else fails meets no error of the chain tracker on a row that it checks. -/
def Judging (task : TaskReviewProvenTxs) (w : ProvenReview) : ReviewAction → Prop
  | .run answers =>
    answers.Unhindered task w →
      answers.Judged (answers.heights task w.lastReviewedHeight) w.store.toTables
  | .change _ => True

theorem noTrackerError_append {xs ys : List Passed} :
    NoTrackerError (xs ++ ys) ↔ NoTrackerError xs ∧ NoTrackerError ys :=
  List.forall_mem_append

/-- One action keeps the record, and keeps it free of errors exactly when it meets the condition. -/
theorem Recorded.next {a : ReviewAction} (h : Recorded w) :
    Recorded (a.next task w) ∧
      (NoTrackerError (a.next task w).passed ↔ NoTrackerError w.passed ∧ Judging task w a) := by
  cases a with
  | change store => exact ⟨⟨h.complete, h.heights, h.rows⟩, (and_iff_left trivial).symm⟩
  | run answers =>
    have hrun := @leaves_runReviewProvenTxs task answers w
    unfold Leaves at hrun
    show Recorded (outcome (runReviewProvenTxs task answers) w).2 ∧
      (NoTrackerError (outcome (runReviewProvenTxs task answers) w).2.passed ↔
        NoTrackerError w.passed ∧ (answers.Unhindered task w →
          answers.Judged (answers.heights task w.lastReviewedHeight) w.store.toTables))
    rcases houtcome : outcome (runReviewProvenTxs task answers) w with ⟨e | msg, w'⟩
    · rw [houtcome] at hrun
      have hfailed : SameReview w w' ∧ ¬answers.Unhindered task w := hrun
      refine ⟨hfailed.1.recorded h, ?_⟩
      rw [hfailed.1.passed]
      exact (and_iff_left fun hfree => absurd hfree hfailed.2).symm
    · rw [houtcome] at hrun
      have hcompleted : Completed task answers w w' := hrun
      refine ⟨hcompleted.recorded h, ?_⟩
      rw [hcompleted.passed, noTrackerError_append, noTrackerError_passes]
      refine and_congr_right fun _ => ⟨fun hj _ => hj, fun hj => ?_⟩
      rcases hcompleted.unhindered with hnothing | hfree
      · rw [hnothing]
        trivial
      · exact hj hfree

theorem recorded_after {store : Store} (actions : List ReviewAction) (h : Recorded w) :
    Recorded ((provenReviews task store).after w actions) ∧
      (NoTrackerError ((provenReviews task store).after w actions).passed ↔
        NoTrackerError w.passed ∧ (provenReviews task store).Allows (Judging task) w actions) := by
  induction actions generalizing w with
  | nil => exact ⟨h, (and_iff_left trivial).symm⟩
  | cons a actions ih =>
    obtain ⟨hnext, hiff⟩ := @Recorded.next task w a h
    obtain ⟨hafter, hrest⟩ := ih hnext
    refine ⟨hafter, hrest.trans ?_⟩
    show NoTrackerError (a.next task w).passed ∧ _ ↔ _ ∧ (True ∧ Judging task w a) ∧ _
    rw [hiff, true_and, and_assoc]
    rfl

end Last

/-- After any sequence of runs the last reviewed height stands for reviewed rows exactly when no run
in which nothing else failed met an error of the chain tracker. -/
theorem reviewedUpTo_iff (task : TaskReviewProvenTxs) (store : Store) (actions : List ReviewAction) :
    ReviewedUpTo ((provenReviews task store).after { store } actions) ↔
      (provenReviews task store).Allows (Judging task) { store } actions := by
  have hstart : Recorded { store } :=
    ⟨fun height hpos hle => absurd hle (by show ¬height ≤ 0; omega), nofun, nofun⟩
  obtain ⟨hrecorded, hiff⟩ := @recorded_after task { store } store actions hstart
  rw [hrecorded.upTo_iff, hiff]
  exact and_iff_right nofun

/-- A chain tracker that is down, at height 200. -/
def trackerDown : RunAnswers where
  getHeight := .ok 200
  getChainTracker := .ok ()
  check _ _ := { tracker := fun _ _ => .error "", services := Sample.answering "success" }

/-- The run passes the funding at height 100 without a judgement on its root. -/
theorem not_reviewedUpTo_trackerDown :
    ¬ReviewedUpTo ((provenReviews {} (Sample.after [Sample.fund])).after
      { store := Sample.after [Sample.fund] } [.run trackerDown]) := by
  intro h
  have hskipped : ∃ p ∈ ((provenReviews {} (Sample.after [Sample.fund])).after
      { store := Sample.after [Sample.fund] } [.run trackerDown]).passed,
      p.height ≤ 100 ∧ ∃ v ∈ p.verdicts, v.2 = Verdict.trackerError := by
    decide +kernel
  have hlast : ((provenReviews {} (Sample.after [Sample.fund])).after
      { store := Sample.after [Sample.fund] } [.run trackerDown]).lastReviewedHeight = 100 := by
    decide +kernel
  obtain ⟨p, hp, hheight, ⟨row, v⟩, hv, rfl⟩ := hskipped
  have hahead := h.ahead p hp row hv
  omega

end WalletToolbox.Monitor
