import WalletToolbox.Lib.Calls
import WalletToolbox.Lib.Runs
import WalletToolbox.Sdk
import WalletToolbox.Storage.Reprove

/-! # TaskReviewProvenTxs

Audits the merkle roots of stored proofs against the chain, some heights a run.
A root that the chain tracker rejects is proved again; a root that it cannot judge is skipped.
A run that ends moves the last reviewed height to the end of its range. -/

namespace WalletToolbox.Monitor

open WalletToolbox.Lib WalletToolbox.Storage

/-- What came of one row. -/
inductive Verdict where
  | confirmed | trackerError | reproved | unchanged | unavailable
deriving DecidableEq

/-- A height that a run has passed: the rows stored there at that time, and their verdicts. -/
structure Passed where
  height : Nat
  rows : List ProvenTx
  verdicts : List (ProvenTx × Verdict)

/-- The limits of the task. -/
structure TaskReviewProvenTxs where
  maxHeightsPerRun : Nat := 100
  minBlockAge : Nat := 100

/-- The database and the fields of the task that a run changes, with the heights that completed runs
have passed. -/
structure ProvenReview where
  store : Store
  lastReviewedHeight : Nat := 0
  useQuickTrigger : Bool := false
  passed : List Passed := []

/-! ## What a run meets -/

/-- The chain tracker and the services when one row is checked, and the failure of its
`reprove_proven`. -/
structure CheckAnswers where
  tracker : ChainTracker
  services : Services
  fault : Option WalletError := none

/-- The answers to the calls of one run; those of a check are given by height and row. -/
structure RunAnswers where
  getHeight : Except WalletError Nat
  getChainTracker : Except WalletError Unit
  findProvenTxs : Nat → Option WalletError := fun _ => none
  check : Nat → Nat → CheckAnswers

/-! ## The run -/

abbrev ProvenReviewM := ExceptT WalletError (StateM ProvenReview)

/-- What a run has counted, and the heights it has passed. -/
structure Audit where
  reviewedHeights : Nat := 0
  mismatchedHeights : Nat := 0
  affectedTxs : Nat := 0
  reprovedTxs : Nat := 0
  log : String := ""
  passed : List Passed := []

/-- An audit at one height: the verdicts so far, and whether there was a mismatch. -/
structure HeightAudit where
  audit : Audit
  verdicts : List (ProvenTx × Verdict) := []
  hasMismatch : Bool := false

def HeightAudit.judge (a : HeightAudit) (ptx : ProvenTx) (verdict : Verdict) : HeightAudit :=
  { a with verdicts := a.verdicts ++ [(ptx, verdict)] }

def HeightAudit.mismatch (a : HeightAudit) : HeightAudit :=
  { a with
    hasMismatch := true
    audit :=
      { a.audit with
        affectedTxs := a.audit.affectedTxs + 1
        mismatchedHeights := a.audit.mismatchedHeights + if a.hasMismatch then 0 else 1 } }

/-- Count the outcome of `reprove_proven`. -/
def HeightAudit.reprove (a : HeightAudit) (height : Nat) (ptx : ProvenTx)
    (result : ReproveProvenResult) : HeightAudit :=
  if result.updated.isSome then
    { a.judge ptx .reproved with
      audit :=
        { a.audit with
          reprovedTxs := a.audit.reprovedTxs + 1
          log := a.audit.log ++ s!"  reproved txid={ptx.txid} at height {height}\n" } }
  else if result.unavailable then
    { a.judge ptx .unavailable with
      audit := { a.audit with log := a.audit.log ++ s!"  unavailable txid={ptx.txid} at height {height}\n" } }
  else a.judge ptx .unchanged

/-- `reprove_proven` on the database of the task. -/
def reproveRowOf (answers : CheckAnswers) (ptx : ProvenTx) : ProvenReviewM ReproveProvenResult :=
  fun w =>
    match answers.fault with
    | some e => (.error e, w)
    | none =>
      let (result, store) := (reproveProven answers.services ptx false).run Stmt.exec w.store
      (result, { w with store })

/-- One row. An error of the chain tracker is no mismatch. -/
def checkRow (answers : CheckAnswers) (height : Nat) (a : HeightAudit) (ptx : ProvenTx) :
    ProvenReviewM HeightAudit :=
  match answers.tracker ptx.merkleRoot height with
  | .error _ => pure (a.judge ptx .trackerError)
  | .ok true => pure (a.judge ptx .confirmed)
  | .ok false => do
    let result ← reproveRowOf answers ptx
    pure (a.mismatch.reprove height ptx result)

/-- The rows at one height. -/
def auditHeight (answers : RunAnswers) (audit : Audit) (height : Nat) : ProvenReviewM Audit := do
  match answers.findProvenTxs height with
  | some e => throw e
  | none =>
    let ptxs := (← get).store.provenTxs.find (·.height == height)
    let a ← ptxs.foldlM
      (fun a ptx => checkRow (answers.check height ptx.provenTxId) height a ptx)
      { audit := { audit with reviewedHeights := audit.reviewedHeights + 1 } }
    pure { a.audit with passed := a.audit.passed ++ [⟨height, ptxs, a.verdicts⟩] }

/-- The first height of a run and the last one. -/
def TaskReviewProvenTxs.range (task : TaskReviewProvenTxs) (lastReviewedHeight maxEligible : Nat) :
    Nat × Nat :=
  let start := lastReviewedHeight + 1
  (start, min maxEligible (start + task.maxHeightsPerRun - 1))

/-- `run_task`. -/
def runReviewProvenTxs (task : TaskReviewProvenTxs) (answers : RunAnswers) : ProvenReviewM String := do
  match answers.getHeight with
  | .error e => throw e
  | .ok tip =>
    let maxEligible := tip - task.minBlockAge
    let w ← get
    if maxEligible = 0 ∨ maxEligible ≤ w.lastReviewedHeight then
      modify fun w => { w with useQuickTrigger := false }
      pure s!"tip={tip}, max_eligible={maxEligible}, nothing to review"
    else
      let (start, stop) := task.range w.lastReviewedHeight maxEligible
      match answers.getChainTracker with
      | .error e => throw e
      | .ok () =>
        let audit ← (List.range' start (stop + 1 - start)).foldlM (auditHeight answers) {}
        modify fun w =>
          { w with
            lastReviewedHeight := stop, useQuickTrigger := stop < maxEligible
            passed := w.passed ++ audit.passed }
        pure (s!"tip={tip}, reviewed heights {start}..={stop}: {audit.reviewedHeights} checked, " ++
          s!"{audit.mismatchedHeights} mismatched, {audit.affectedTxs} affected, " ++
          s!"{audit.reprovedTxs} reproved\n{audit.log}")

/-- What happens to the task: it runs, or others change the database between two runs. -/
inductive ReviewAction where
  | run (answers : RunAnswers)
  | change (store : Store)

def ReviewAction.next (task : TaskReviewProvenTxs) : ReviewAction → ProvenReview → ProvenReview
  | .run answers, w => (Calls.outcome (runReviewProvenTxs task answers) w).2
  | .change store, w => { w with store }

/-- The task, from a database. -/
def provenReviews (task : TaskReviewProvenTxs) (store : Store) : System ProvenReview ReviewAction where
  init := { store }
  Enabled _ _ := True
  next := ReviewAction.next task

end WalletToolbox.Monitor
