import WalletToolbox.Chaintracks.Memory
import WalletToolbox.Lib.Runs

/-! # Chaintracks

Headers are queued by `add_header` and taken from the queue in batches, by
`process_pending_headers` or by a pass of the background task.
Each is given a height from the parent that storage knows at that moment, and is inserted.
The subscribers hear of the reorganizations. -/

namespace WalletToolbox.Chaintracks

open WalletToolbox.Lib

/-- `ReorgEvent`. -/
structure ReorgEvent where
  depth : Nat
  oldTip : BlockHeader
  newTip : BlockHeader
  deactivatedHeaders : List BlockHeader
deriving DecidableEq, Repr

/-- A header without a parent: its previous hash is the zero hash, or empty. -/
def BaseBlockHeader.IsGenesis (base : BaseBlockHeader) : Prop :=
  base.previousHash = zeroHash ∨ base.previousHash = ""

instance (base : BaseBlockHeader) : Decidable base.IsGenesis :=
  inferInstanceAs (Decidable (_ ∨ _))

/-- The height and the link that a header gets. One whose parent is not known is put at height
zero. -/
def Inner.heightAndLink (s : Inner) (base : BaseBlockHeader) : Nat × Option Nat :=
  if base.IsGenesis then (0, none)
  else
    match s.findLiveHeaderForBlockHash base.previousHash with
    | some parent => (parent.height + 1, parent.headerId)
    | none => (0, none)

/-- The header that is handed to storage. -/
def Inner.liveHeader (blockHash : BaseBlockHeader → String) (s : Inner) (base : BaseBlockHeader) :
    LiveBlockHeader where
  version := base.version
  previousHash := base.previousHash
  merkleRoot := base.merkleRoot
  time := base.time
  bits := base.bits
  nonce := base.nonce
  height := (s.heightAndLink base).1
  hash := (base.toBlockHeaderAtHeight blockHash 0).hash
  chainWork := 0
  isChainTip := false
  isActive := false
  headerId := none
  previousHeaderId := (s.heightAndLink base).2

/-- The event for the subscribers. -/
def reorgEvent (blockHash : BaseBlockHeader → String) (base : BaseBlockHeader) (height : Nat)
    (result : InsertHeaderResult) : Option ReorgEvent :=
  if 0 < result.reorgDepth then
    some { depth := result.reorgDepth
           oldTip := result.priorTip.getD (base.toBlockHeaderAtHeight blockHash 0)
           newTip := base.toBlockHeaderAtHeight blockHash height
           deactivatedHeaders := result.deactivatedHeaders }
  else none

/-- One header of a batch: the header, the storage before and after, and the event that is delivered
to a subscriber. -/
structure Insertion where
  base : BaseBlockHeader
  before : Inner
  after : Inner
  event : Option ReorgEvent

/-- Insert one header. `process_pending_headers` leaves a duplicate before it looks for a
reorganization; the background pass does not. -/
def insertBase (blockHash : BaseBlockHeader → String) (reorgHeightThreshold : Nat)
    (skipsDupe : Bool) (base : BaseBlockHeader) (s : Inner) : Option Insertion :=
  (s.insertHeader reorgHeightThreshold (s.liveHeader blockHash base)).map fun (result, after) =>
    { base, before := s, after
      event := if skipsDupe && result.dupe then none
        else reorgEvent blockHash base (s.heightAndLink base).1 result }

/-- The headers of a batch in turn; `none` when an insertion does not return. -/
def insertBatch (blockHash : BaseBlockHeader → String) (reorgHeightThreshold : Nat)
    (skipsDupe : Bool) : List BaseBlockHeader → Inner → Option (Inner × List Insertion)
  | [], s => some (s, [])
  | base :: rest, s =>
    match insertBase blockHash reorgHeightThreshold skipsDupe base s with
    | none => none
    | some insertion =>
      (insertBatch blockHash reorgHeightThreshold skipsDupe rest insertion.after).map
        fun (s', insertions) => (s', insertion :: insertions)

/-- `process_pending_headers` on a drained queue. -/
def processPendingHeaders (blockHash : BaseBlockHeader → String) (reorgHeightThreshold : Nat) :
    List BaseBlockHeader → Inner → Option (Inner × List Insertion) :=
  insertBatch blockHash reorgHeightThreshold true

/-- A pass of the task of `start_background_sync`. -/
def backgroundPass (blockHash : BaseBlockHeader → String) (reorgHeightThreshold : Nat) :
    List BaseBlockHeader → Inner → Option (Inner × List Insertion) :=
  insertBatch blockHash reorgHeightThreshold false

/-- The queue, the storage, and the history of the insertions. -/
structure State where
  storage : Inner := {}
  baseHeaders : List BaseBlockHeader := []
  insertions : List Insertion := []

/-- The headers that have been queued so far. -/
def State.queued (st : State) : List BaseBlockHeader :=
  st.insertions.map (·.base) ++ st.baseHeaders

inductive Action where
  | addHeader (header : BaseBlockHeader)
  | processPendingHeaders
  | backgroundPass

/-- The queue is drained and its headers are inserted. -/
def State.drain (st : State)
    (batch : List BaseBlockHeader → Inner → Option (Inner × List Insertion)) : State :=
  match batch st.baseHeaders st.storage with
  | none => st
  | some (storage, insertions) =>
    { storage, baseHeaders := [], insertions := st.insertions ++ insertions }

def Action.next (blockHash : BaseBlockHeader → String) (reorgHeightThreshold : Nat) :
    Action → State → State
  | .addHeader header, st => { st with baseHeaders := st.baseHeaders ++ [header] }
  | .processPendingHeaders, st =>
    st.drain (Chaintracks.processPendingHeaders blockHash reorgHeightThreshold)
  | .backgroundPass, st => st.drain (Chaintracks.backgroundPass blockHash reorgHeightThreshold)

/-- A hash that is queued is a block's: neither the zero hash nor empty. -/
def Action.Enabled (blockHash : BaseBlockHeader → String) : Action → Prop
  | .addHeader header => blockHash header ≠ zeroHash ∧ blockHash header ≠ ""
  | _ => True

instance (blockHash : BaseBlockHeader → String) : ∀ a, Decidable (Action.Enabled blockHash a)
  | .addHeader _ => inferInstanceAs (Decidable (_ ∧ _))
  | .processPendingHeaders => isTrue trivial
  | .backgroundPass => isTrue trivial

/-- Chaintracks over MemoryStorage. -/
def chaintracks (blockHash : BaseBlockHeader → String) (reorgHeightThreshold : Nat) :
    System State Action where
  init := {}
  Enabled _ a := a.Enabled blockHash
  next := Action.next blockHash reorgHeightThreshold

instance (blockHash : BaseBlockHeader → String) (reorgHeightThreshold : Nat) (st : State)
    (a : Action) : Decidable ((chaintracks blockHash reorgHeightThreshold).Enabled st a) :=
  inferInstanceAs (Decidable (a.Enabled blockHash))

end WalletToolbox.Chaintracks
