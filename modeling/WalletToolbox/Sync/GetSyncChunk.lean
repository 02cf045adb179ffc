import WalletToolbox.Sync.Entities

/-! # getSyncChunk

The reader fills a chunk with rows of a user that changed since a time.
One budget of items and one of rough size are spent over the twelve kinds in order, and a kind is
exhausted before the next one starts.
The size of a row is the length of its JSON text; the function that measures it is a parameter. -/

namespace WalletToolbox.Storage

open WalletToolbox.Lib

/-! ## The rows of a user -/

/-- `updated_at >= ?` on stored texts, with the time cut to whole seconds: a text with a fraction
of the same second sorts after it. -/
def changedSince (since : Option Nat) (updatedAt : Nat) : Bool :=
  match since with
  | none => true
  | some t => toSeconds t ≤ updatedAt

/-- Whether a row is selected for a user. Proofs and requests are found through the user's
transactions, maps through the user's labels and tags. -/
def Tables.belongs (d : Tables) (userId : Nat) : (e : Entity) → e.Row → Bool
  | .provenTx, r =>
    d.transactions.exists? fun t => t.userId == userId && t.provenTxId == some (ProvenTx.provenTxId r)
  | .outputBasket, r => OutputBasket.userId r == userId
  | .outputTag, r => OutputTag.userId r == userId
  | .txLabel, r => TxLabel.userId r == userId
  | .transaction, r => Transaction.userId r == userId
  | .output, r => Output.userId r == userId
  | .txLabelMap, r =>
    d.txLabels.exists? fun l => l.userId == userId && l.txLabelId == TxLabelMap.txLabelId r
  | .outputTagMap, r =>
    d.outputTags.exists? fun t => t.userId == userId && t.outputTagId == OutputTagMap.outputTagId r
  | .certificate, r => Certificate.userId r == userId
  | .certificateField, r => CertificateField.userId r == userId
  | .commission, r => Commission.userId r == userId
  | .provenTxReq, r =>
    d.transactions.exists? fun t => t.userId == userId && t.txid == some (ProvenTxReq.txid r)

/-- The order of a paged query: the primary key, which for maps and fields has two columns. -/
def Entity.inOrder : (e : Entity) → List e.Row → List e.Row
  | .txLabelMap, rows =>
    rows.insertionSort fun (a b : TxLabelMap) => a.transactionId < b.transactionId ∨
      (a.transactionId = b.transactionId ∧ a.txLabelId ≤ b.txLabelId)
  | .outputTagMap, rows =>
    rows.insertionSort fun (a b : OutputTagMap) => a.outputId < b.outputId ∨
      (a.outputId = b.outputId ∧ a.outputTagId ≤ b.outputTagId)
  | .certificateField, rows =>
    rows.insertionSort fun (a b : CertificateField) => a.certificateId < b.certificateId ∨
      (a.certificateId = b.certificateId ∧ a.fieldName ≤ b.fieldName)
  | _, rows => rows

/-- The rows that a round sends for a user, in the order in which it pages through them. -/
def Tables.changedRows (d : Tables) (userId : Nat) (since : Option Nat) (e : Entity) : List e.Row :=
  e.inOrder ((d.table e).find fun r => d.belongs userId e r && changedSince since (e.updatedAt r))

/-! ## Filling a chunk -/

/-- What is left of the budgets. -/
structure Budget where
  itemCount : Int
  roughSize : Int
  done : Bool := false

/-- The rows of a page that fit. -/
def addItems {α : Type} (size : α → Nat) : List α → Budget → List α × Budget
  | [], b => ([], b)
  | item :: rest, b =>
    let itemCount := b.itemCount - 1
    let roughSize := b.roughSize - size item
    if itemCount ≤ 0 ∨ roughSize < 0 then ([item], { itemCount, roughSize, done := true })
    else
      let (items, b) := addItems size rest { b with itemCount, roughSize }
      (item :: items, b)

/-- Page through the rows from an offset on until they are exhausted or a budget runs out. Every
page but the last moves on, so one page more than there are rows is never needed. -/
def chunkPages {α : Type} (size : α → Nat) (pageSize : Int) (rows : List α) :
    Nat → Nat → Option (List α) → Budget → Option (List α) × Budget
  | 0, _, target, b => (target, b)
  | fuel + 1, offset, target, b =>
    let limit := min b.itemCount pageSize
    if limit ≤ 0 then (target, b)
    else
      let items := (rows.drop offset).take limit.toNat
      if items.isEmpty then (some (target.getD []), b)
      else
        let (added, b) := addItems size items b
        let target := target.getD [] ++ added
        if b.done then (some target, b)
        else chunkPages size pageSize rows fuel (offset + items.length) (some target) b

/-- What one kind of rows adds to the chunk. -/
def chunkEntity {α : Type} (size : α → Nat) (pageSize : Int) (rows : List α) (offset : Int)
    (b : Budget) : Option (List α) × Budget :=
  if !b.done && 0 ≤ offset then chunkPages size pageSize rows (rows.length + 1) offset.toNat none b
  else (none, b)

/-- How many pages the item budget is divided into. -/
def Entity.divider : Entity → Int
  | .provenTx | .provenTxReq => 100
  | .transaction | .output | .certificate | .certificateField | .commission => 25
  | _ => 1

/-- The length of the JSON text of a row. -/
abbrev RowSize := (e : Entity) → e.Row → Nat

/-- Fill the arrays of some kinds, one after the other. -/
def chunkEntities (size : RowSize) (maxItems : Int) (rows : (e : Entity) → List e.Row)
    (offsets : Entity → Int) :
    List Entity → ((e : Entity) → Option (List e.Row)) → Budget → (e : Entity) → Option (List e.Row)
  | [], chunk, _ => chunk
  | e :: rest, chunk, b =>
    let (target, b) := chunkEntity (size e) (max 10 (maxItems / e.divider)) (rows e) (offsets e) b
    chunkEntities size maxItems rows offsets rest (Function.update chunk e target) b

/-! ## The request -/

/-- `RequestSyncChunkArgs::validate`. -/
def RequestSyncChunkArgs.validate (args : RequestSyncChunkArgs) : Except WalletError Unit :=
  if args.maxItems < 1 then .error (.invalidParameter "maxItems" "an integer >= 1")
  else if args.maxRoughSize < 1 then .error (.invalidParameter "maxRoughSize" "an integer >= 1")
  else
    match args.offsets.find? (·.2 < 0) with
    | some (name, offset) =>
      .error (.invalidParameter "offsets" s!"non-negative; entity \"{name}\" has offset {offset}")
    | none => .ok ()

/-- `build_sync_map_and_offsets`: the offsets are a positional prefix of the order of kinds, and a
kind that they do not reach is not queried. -/
def readOffsets (offsets : List (String × Int)) : Except WalletError (Entity → Int) :=
  go offsets Entity.all fun _ => -1
where
  go : List (String × Int) → List Entity → (Entity → Int) → Except WalletError (Entity → Int)
    | [], _, acc => .ok acc
    | _ :: _, [], _ =>
      .error (.invalidParameter "offsets" "at most 12 entries in dependency order")
    | (name, offset) :: rest, e :: es, acc =>
      if name != e.name then
        .error (.invalidParameter "offsets"
          s!"in dependency order; '{e.name}' expected, found {name}")
      else go rest es (Function.update acc e offset)

/-- `get_sync_chunk`. The user record is left out when it is not newer than the window. -/
def getSyncChunk (size : RowSize) (s : Store) (args : RequestSyncChunkArgs) :
    Except WalletError SyncChunk := do
  args.validate
  let offsets ← readOffsets args.offsets
  match ← verifyOneOrNone (s.users.find (·.identityKey == args.identityKey)) with
  | none =>
    .error (.invalidParameter "identityKey"
      s!"an identity present in storage; '{args.identityKey}' was not found")
  | some user =>
    .ok {
      fromStorageIdentityKey := args.fromStorageIdentityKey
      toStorageIdentityKey := args.toStorageIdentityKey
      userIdentityKey := args.identityKey
      user := if args.since.any (user.updatedAt ≤ ·) then none else some user
      rows := chunkEntities size args.maxItems (s.changedRows user.userId args.since) offsets
        Entity.all (fun _ => none) { itemCount := args.maxItems, roughSize := args.maxRoughSize } }

end WalletToolbox.Storage
