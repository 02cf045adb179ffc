import WalletToolbox.Lib.Runs
import WalletToolbox.Services
import WalletToolbox.Storage.Provider

/-! # TaskReorg

Headers that a reorganization deactivates wait in a queue that the monitor's handlers share with
the task.
`trigger` moves the aged ones to the task's own list; `run_task` takes them from there one by one
and asks for new proofs of the transactions of the block.
Either of them leaves the queue alone when another holder has its lock. -/

namespace WalletToolbox.Reorg

open WalletToolbox.Lib WalletToolbox.Storage

/-- `DeactivatedHeader`. -/
structure DeactivatedHeader where
  whenMsecs : Nat
  tries : Nat
  header : BlockHeader

/-! ## The proofs of one block -/

/-- The failures of the storage during one turn of the loop: the search for the proofs, and the
updates by row. -/
structure Faults where
  find : Option String := none
  update : Nat → Option String := fun _ => none

/-- What happened to one proof of the block. -/
inductive RowOutcome where
  | updated | failed | unavailable
deriving DecidableEq

inductive HeaderOutcome where
  | findError (e : String)
  | found (rows : List (ProvenTx × RowOutcome))

/-- Ask for a new proof of one transaction. Only the height and the hash of the block are
written. -/
def reproveRow (services : Services) (fault : Option String) (ptx : ProvenTx) :
    StorageProg RowOutcome :=
  match (services.getMerklePath ptx.txid).merklePath, (services.getMerklePath ptx.txid).header with
  | some _, some newHeader =>
    match fault with
    | some _ => pure .failed
    | none => do
      match ← (exec (.updateProvenTx ptx.provenTxId
          { height := some newHeader.height, blockHash := some newHeader.hash })).attempt with
      | .ok _ => pure .updated
      | .error _ => pure .failed
  | _, _ => pure .unavailable

def reproveRows (services : Services) (faults : Faults) (provenTxs : List ProvenTx) :
    StorageProg (List (ProvenTx × RowOutcome)) :=
  provenTxs.foldlM (fun rows ptx => do
    let outcome ← reproveRow services (faults.update ptx.provenTxId) ptx
    pure (rows ++ [(ptx, outcome)])) []

/-- One deactivated header, up to the decision whether to try again. -/
def processHeader (services : Services) (faults : Faults) (hash : String) :
    StorageProg HeaderOutcome :=
  match faults.find with
  | some e => pure (.findError e)
  | none => do
    let provenTxs ← find fun s => s.provenTxs.find (·.blockHash == hash)
    let rows ← reproveRows services faults provenTxs
    pure (.found rows)

/-! ## The task -/

structure Config where
  agedMsecs : Nat := 600000
  maxRetries : Nat := 3
  triggerMsecs : Nat := 30000

/-- A deactivated header, with the number of the push that it goes back to. -/
structure Tracked where
  origin : Nat
  header : DeactivatedHeader

/-- A header that is done: the proofs that named its block when its turn came, and what happened to
each of them. -/
structure Finished where
  origin : Nat
  header : DeactivatedHeader
  named : List ProvenTx
  rows : List (ProvenTx × RowOutcome)

structure State where
  store : Store := Store.empty
  lastRunMsecs : Nat := 0
  /-- The shared queue. -/
  deactivatedHeaders : List Tracked := []
  process : List Tracked := []
  /-- Every header that was ever pushed. -/
  pushed : List DeactivatedHeader := []
  /-- The origin of each turn of the loop so far. -/
  turns : List Nat := []
  finished : List Finished := []

def State.push (s : State) (header : DeactivatedHeader) : State :=
  { s with
    deactivatedHeaders := s.deactivatedHeaders ++ [⟨s.pushed.length, header⟩]
    pushed := s.pushed ++ [header] }

/-- The aged headers go to the process list, unless someone holds the queue. -/
def State.shift (cfg : Config) (now : Nat) (locked : Bool) (s : State) : State :=
  let aged := fun t : Tracked => decide (t.header.whenMsecs < now - cfg.agedMsecs)
  if locked then s
  else
    { s with
      process := s.process ++ s.deactivatedHeaders.filter aged
      deactivatedHeaders := s.deactivatedHeaders.filter fun t => !aged t }

/-- `TaskReorg::trigger`. -/
def State.trigger (cfg : Config) (now : Nat) (locked : Bool) (s : State) : Bool × State :=
  if now ≤ s.lastRunMsecs + cfg.triggerMsecs then (false, s)
  else
    let s := s.shift cfg now locked
    if s.process.isEmpty then (false, s) else (true, { s with lastRunMsecs := now })

/-- What the loop does with a header once its proofs were tried. -/
def State.conclude (cfg : Config) (now : Nat) (locked : Bool) (t : Tracked) (named : List ProvenTx)
    (s : State) : HeaderOutcome → State
  -- The loop goes on to the next header.
  | .findError _ => s
  | .found rows =>
    if rows.all (·.2 == .updated) then
      { s with finished := s.finished ++ [⟨t.origin, t.header, named, rows⟩] }
    else if cfg.maxRetries ≤ t.header.tries + 1 then
      { s with finished := s.finished ++ [⟨t.origin, t.header, named, rows⟩] }
    else if locked then s
    else
      { s with
        deactivatedHeaders := s.deactivatedHeaders ++
          [⟨t.origin, { header := t.header.header, whenMsecs := now, tries := t.header.tries + 1 }⟩] }

/-- One turn of the loop of `TaskReorg::run_task`; `locked` tells whether another holder has the
queue when the header is to be pushed back. -/
def State.turn (cfg : Config) (services : Services) (faults : Faults) (now : Nat) (locked : Bool)
    (s : State) : State :=
  match s.process.getLast? with
  | none => s
  | some t =>
    let named := s.store.provenTxs.find (·.blockHash == t.header.header.hash)
    let taken := { s with process := s.process.dropLast, turns := s.turns ++ [t.origin] }
    match (processHeader services faults t.header.header.hash).run Stmt.exec s.store with
    | (.ok outcome, store) => { taken with store }.conclude cfg now locked t named outcome
    | (.error _, store) => { taken with store }

inductive Action where
  /-- Some handler of the monitor pushes a header. -/
  | push (header : DeactivatedHeader)
  | trigger (now : Nat) (locked : Bool)
  | turn (services : Services) (faults : Faults) (now : Nat) (locked : Bool)
  /-- Anything else that writes to the storage. -/
  | write (store : Store)

def Action.next (cfg : Config) : Action → State → State
  | .push header, s => s.push header
  | .trigger now locked, s => (s.trigger cfg now locked).2
  | .turn services faults now locked, s => s.turn cfg services faults now locked
  | .write store, s => { s with store }

/-- The task, its queue and the storage. -/
def task (cfg : Config) : System State Action where
  init := {}
  Enabled _ _ := True
  next := Action.next cfg

end WalletToolbox.Reorg
