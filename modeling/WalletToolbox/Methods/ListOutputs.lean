import WalletToolbox.Methods.ListActions

/-! # listOutputs

Selects a page of the user's spendable outputs, in a basket if one is named, and filters it by tags.
The BEEF of the outputs is left to the layers above, as in the source. -/

namespace WalletToolbox.Storage

open WalletToolbox.Lib

inductive OutputInclude where
  | lockingScripts | entireTransactions
deriving DecidableEq

structure ListOutputsArgs where
  basket : String
  tags : List String
  tagQueryMode : Option QueryMode
  /-- `include`. -/
  includes : Option OutputInclude
  includeCustomInstructions : Bool
  includeTags : Bool
  includeLabels : Bool
  limit : Option UInt32
  offset : Option Int

structure SdkOutput where
  satoshis : UInt64
  lockingScript : Option Bytes
  spendable : Bool
  customInstructions : Option String
  tags : Option (List String)
  outpoint : String
  labels : Option (List String)

structure ListOutputsResult where
  totalOutputs : Nat
  beef : Option Bytes
  outputs : List SdkOutput

/-- `TX_STATUS_ALLOWED`. -/
def txStatusAllowed : List TransactionStatus :=
  [.completed, .unproven, .nosend, .sending]

/-! ## Selection -/

/-- The basket of a name; the empty name is no restriction, and `none` is a name without a basket. -/
def findBasketId (s : Store) (userId : Nat) (basket : String) : Option (Option Nat) :=
  if basket.isEmpty then some none
  else
    match s.outputBaskets.find fun b => b.userId == userId && b.name == basket with
    | [b] => some (some b.basketId)
    | _ => none

/-- The ids of the user's live tags, one query for each name. -/
def findTagIds (s : Store) (userId : Nat) (tags : List String) : List Nat :=
  tags.flatMap fun tag =>
    (s.outputTags.find fun t => t.userId == userId && t.tag == tag && !t.isDeleted).map
      (·.outputTagId)

/-- The condition of the base query. -/
def isVisible (s : Store) (userId : Nat) (basketId : Option Nat) (o : Output) : Bool :=
  o.userId == userId && basketId.all (fun id => o.basketId == some id) && o.spendable &&
    (s.transactions.first fun t => t.transactionId == o.transactionId).any
      fun t => txStatusAllowed.contains t.status

/-- The live links of an output. -/
def findOutputTagMaps (s : Store) (outputId : Nat) : List OutputTagMap :=
  s.outputTagMaps.find fun m => m.outputId == outputId && !m.isDeleted

/-- Whether an output with the given links has the tags that are asked for. -/
def hasTags (isQueryModeAll : Bool) (tagIds : List Nat) (maps : List OutputTagMap) : Bool :=
  let matchingCount := (maps.filter fun m => tagIds.contains m.outputTagId).length
  if isQueryModeAll then tagIds.length ≤ matchingCount else 0 < matchingCount

/-- The outputs of a page that have the tags. -/
def filterByTags (s : Store) (isQueryModeAll : Bool) (tagIds : List Nat) (outputs : List Output) :
    List Output :=
  if tagIds.isEmpty then outputs
  else outputs.filter fun o => hasTags isQueryModeAll tagIds (findOutputTagMaps s o.outputId)

/-- The number of rows that are skipped; a negative offset counts from minus one on. -/
def skippedRows (offset : Option Int) : Nat :=
  let rawOffset := offset.getD 0
  (if rawOffset < 0 then -rawOffset - 1 else rawOffset).toNat

/-- `list_outputs` up to the count: the filtered outputs of the page and the total. Where the source
returns early, no output is selected and the total is zero. -/
def selectOutputs (s : Store) (userId : Nat) (args : ListOutputsArgs) : List Output × Nat :=
  let limit := (args.limit.getD 10).toNat
  let offset := skippedRows args.offset
  let isQueryModeAll := args.tagQueryMode == some .all
  match findBasketId s userId args.basket with
  | none => ([], 0)
  | some basketId =>
    let tagIds := findTagIds s userId args.tags
    if isQueryModeAll && tagIds.length < args.tags.length then ([], 0)
    else if !isQueryModeAll && tagIds.isEmpty && !args.tags.isEmpty then ([], 0)
    else
      let allOutputs := ((s.outputs.find (isVisible s userId basketId)).drop offset).take limit
      let filteredOutputs := filterByTags s isQueryModeAll tagIds allOutputs
      let totalOutputs :=
        if filteredOutputs.length < limit then (offset + filteredOutputs.length) % 4294967296
        else (s.outputs.find (isVisible s userId basketId)).length % 4294967296
      (filteredOutputs, totalOutputs)

/-! ## Description -/

/-- `get_tags_for_output`. -/
def getTagsForOutput (s : Store) (outputId : Nat) : List String :=
  (findOutputTagMaps s outputId).flatMap fun m =>
    (s.outputTags.find fun t => t.outputTagId == m.outputTagId && !t.isDeleted).map (·.tag)

/-- `get_labels_for_transaction_id`. -/
def getLabelsForTransactionId (s : Store) (transactionId : Nat) : Except WalletError (List String) :=
  labelsOf s (s.txLabelMaps.find fun m => m.transactionId == transactionId && !m.isDeleted)

def toSdkOutput (s : Store) (args : ListOutputsArgs) (o : Output) : Except WalletError SdkOutput := do
  let labels ← if args.includeLabels then getLabelsForTransactionId s o.transactionId else pure []
  return {
    satoshis := asU64 o.satoshis
    lockingScript := if args.includes.isSome then o.lockingScript else none
    spendable := o.spendable
    customInstructions := if args.includeCustomInstructions then o.customInstructions else none
    tags := if args.includeTags then listed (getTagsForOutput s o.outputId) else none
    outpoint := o.txid.getD "" ++ "." ++ toString o.vout
    labels := listed labels }

/-- `list_outputs`. -/
def listOutputs (s : Store) (userId : Nat) (args : ListOutputsArgs) :
    Except WalletError ListOutputsResult := do
  let (filteredOutputs, totalOutputs) := selectOutputs s userId args
  let outputs ← filteredOutputs.mapM (toSdkOutput s args)
  return { totalOutputs, beef := none, outputs }

end WalletToolbox.Storage
