import WalletToolbox.Lib.Runs
import WalletToolbox.Methods.AbortAction
import WalletToolbox.Methods.CreateAction
import WalletToolbox.Methods.InternalizeAction
import WalletToolbox.Methods.ProcessAction
import WalletToolbox.Monitor.Helpers
import WalletToolbox.Monitor.TaskUnfail
import WalletToolbox.Signer.BroadcastOutcome

/-! # The wallet storage as a system

Any number of users call the four action methods, the signer applies broadcast outcomes, and the
monitor works through requests that it read some time before.
A monitor task takes up one request at a time; each is an action of its own, and a task that works
through a list is one such action after another. -/

namespace WalletToolbox

open WalletToolbox.Lib WalletToolbox.Storage WalletToolbox.Signer WalletToolbox.Monitor

/-- One thing that happens to the database. -/
inductive Op where
  | tick (now : Nat)
  | createAction (entropy : Entropy) (auth : String) (args : StorageCreateActionArgs)
  | processAction (auth : String) (args : StorageProcessActionArgs) (random : String)
  | abortAction (auth : String) (reference : Bytes) (stamp : String)
  | internalizeAction (tracker : ChainTracker) (auth : String) (args : StorageInternalizeActionArgs)
  | applyBroadcast (services : Services) (txid : String) (results : List PostBeefResult)
  | attemptToPostReq (sources : SourceBeefs) (services : Services) (req : ProvenTxReq)
  | getProof (services : Services) (params : ProofParams) (req : ProvenTxReq)
  | unfailReq (services : Services) (req : ProvenTxReq)

/-- What kind of operation it is. -/
inductive OpKind where
  | tick | create | process | abort | internalize | signer | post | prove | unfail
deriving DecidableEq

def Op.kind : Op → OpKind
  | .tick _ => .tick
  | .createAction _ _ _ => .create
  | .processAction _ _ _ => .process
  | .abortAction _ _ _ => .abort
  | .internalizeAction _ _ _ => .internalize
  | .applyBroadcast _ _ _ => .signer
  | .attemptToPostReq _ _ _ => .post
  | .getProof _ _ _ => .prove
  | .unfailReq _ _ => .unfail

/-- Set the clock. -/
def Storage.Store.tick (s : Store) (now : Nat) : Store :=
  ⟨{ s.toTables with now }, { s.unique with }, { s.foreign with }⟩

/-- The store that a call leaves when it runs alone. -/
def leaves {α : Type} (s : Store) (p : StorageProg α) : Store :=
  (p.run Stmt.exec s).2

/-- The store that an operation leaves when it runs alone. -/
def Op.run (sdk : Sdk) (s : Store) : Op → Store
  | .tick now => s.tick now
  | .createAction entropy auth args => leaves s (Storage.createAction sdk entropy auth args)
  | .processAction auth args random => leaves s (Storage.processAction auth args random)
  | .abortAction auth reference stamp => leaves s (Storage.abortAction sdk auth reference stamp)
  | .internalizeAction tracker auth args =>
    leaves s (Storage.internalizeAction sdk tracker auth args)
  | .applyBroadcast services txid results => leaves s (Signer.applyBroadcast services txid results)
  | .attemptToPostReq sources services req =>
    leaves s (Monitor.attemptToPostReq sdk sources services req)
  | .getProof services params req => leaves s (Monitor.getProof services params req)
  | .unfailReq services req => leaves s (Monitor.unfailReq sdk services req)

/-- A request as a monitor task read it, and what the row is now: status, attempts, batch and
history may have changed, and it may have been linked to a proof. -/
structure ReadFrom (req row : ProvenTxReq) : Prop where
  provenTxReqId : row.provenTxReqId = req.provenTxReqId
  txid : row.txid = req.txid
  notify : row.notify = req.notify
  rawTx : row.rawTx = req.rawTx
  provenTxId : ∀ id, req.provenTxId = some id → row.provenTxId = some id

theorem ReadFrom.refl (req : ProvenTxReq) : ReadFrom req req :=
  ⟨rfl, rfl, rfl, rfl, fun _ h => h⟩

/-- A monitor task works on a request that it read from the store, now or before. -/
def Op.Enabled (s : Store) : Op → Prop
  | .attemptToPostReq _ _ req | .getProof _ _ req | .unfailReq _ req =>
    ∃ row ∈ s.provenTxReqs, ReadFrom req row
  | _ => True

/-- The wallet storage, from an empty database on. -/
def wallet (sdk : Sdk) : System Store Op where
  init := Store.empty
  Enabled := Op.Enabled
  next op s := op.run sdk s

end WalletToolbox
