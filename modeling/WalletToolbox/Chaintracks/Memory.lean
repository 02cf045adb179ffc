import WalletToolbox.Chaintracks.Types

/-! # MemoryStorage

The in-memory backend: headers by id, and the ids by hash, by height and by merkle root.
The last two indexes are for the active headers only.
A walk over the links is given as many turns as there are headers; one that needs more passes a
header twice and does not end, which is the outer `none` of the results below. -/

namespace WalletToolbox.Chaintracks

/-- `Inner`, the state behind the lock. -/
structure Inner where
  headers : AList fun _ : Nat => LiveBlockHeader := ∅
  hashToId : AList fun _ : String => Nat := ∅
  heightToId : AList fun _ : Nat => Nat := ∅
  merkleToId : AList fun _ : String => Nat := ∅
  nextId : Nat := 1
  tipId : Option Nat := none
  bulk : AList fun _ : Nat => BlockHeader := ∅

namespace Inner

/-- The stored headers, in no particular order. -/
def values (s : Inner) : List LiveBlockHeader := s.headers.entries.map Sigma.snd

def size (s : Inner) : Nat := s.headers.entries.length

/-! ## Queries -/

def findChainTipHeader (s : Inner) : Option LiveBlockHeader :=
  s.tipId.bind s.headers.lookup

def findChainTipHash (s : Inner) : Option String :=
  s.findChainTipHeader.map (·.hash)

/-- `find_header_for_height`: the live window first, then the archive. -/
def findHeaderForHeight (s : Inner) (height : Nat) : Option BlockHeader :=
  match s.heightToId.lookup height with
  | some id => (s.headers.lookup id).map (·.toBlockHeader)
  | none => s.bulk.lookup height

def findLiveHeaderForBlockHash (s : Inner) (hash : String) : Option LiveBlockHeader :=
  (s.hashToId.lookup hash).bind s.headers.lookup

/-! ## The common ancestor -/

/-- The previous header, by its id or else by its hash. -/
def stepBack (s : Inner) (h : LiveBlockHeader) : Option LiveBlockHeader :=
  (h.previousHeaderId.or (s.hashToId.lookup h.previousHash)).bind s.headers.lookup

/-- The loops that bring one header to the height of the other. The inner `none` says that a header
on the way is missing. -/
def bringDown (s : Inner) (height : Nat) : Nat → LiveBlockHeader → Option (Option LiveBlockHeader)
  | 0, cur => if height < cur.height then none else some (some cur)
  | turns + 1, cur =>
    if height < cur.height then
      match s.stepBack cur with
      | none => some none
      | some previous => bringDown s height turns previous
    else some (some cur)

/-- The walk back in parallel: at most as many steps as the threshold, and a last comparison. -/
def walkBack (s : Inner) : Nat → LiveBlockHeader → LiveBlockHeader → Option LiveBlockHeader
  | 0, cur1, cur2 => if cur1.hash = cur2.hash then some cur1 else none
  | steps + 1, cur1, cur2 =>
    if cur1.hash = cur2.hash then some cur1
    else
      match s.stepBack cur1, s.stepBack cur2 with
      | some previous1, some previous2 => walkBack s steps previous1 previous2
      | _, _ => none

/-- `find_common_ancestor_sync`. -/
def findCommonAncestorSync (reorgHeightThreshold : Nat) (s : Inner) (id1 id2 : Nat) :
    Option (Option LiveBlockHeader) :=
  match s.headers.lookup id1, s.headers.lookup id2 with
  | some h1, some h2 =>
    match s.bringDown h2.height s.size h1 with
    | none => none
    | some none => some none
    | some (some cur1) =>
      match s.bringDown cur1.height s.size h2 with
      | none => none
      | some none => some none
      | some (some cur2) => some (s.walkBack reorgHeightThreshold cur1 cur2)
  | _, _ => some none

/-! ## Reorganizations -/

def deactivate (id : Nat) (h : LiveBlockHeader) (s : Inner) : Inner :=
  { s with
    headers := s.headers.insert id { h with isActive := false }
    heightToId := s.heightToId.erase h.height
    merkleToId := s.merkleToId.erase h.merkleRoot }

def activate (id : Nat) (h : LiveBlockHeader) (s : Inner) : Inner :=
  { s with
    headers := s.headers.insert id { h with isActive := true }
    heightToId := s.heightToId.insert h.height id
    merkleToId := s.merkleToId.insert h.merkleRoot id }

/-- The id that the loops of `handle_reorg` go on with. -/
def previousStored (s : Inner) (id : Nat) : Option Nat :=
  (s.headers.lookup id).bind fun h => h.previousHeaderId.filter (· ∈ s.headers)

/-- A loop of `handle_reorg`: mark one header after the other, until the ancestor. -/
def sweep (mark : Nat → LiveBlockHeader → Inner → Inner) (ancestorHash : String) :
    Nat → Option Nat → Inner → Option (Inner × List LiveBlockHeader)
  | _, none, s => some (s, [])
  | 0, some _, _ => none
  | turns + 1, some id, s =>
    match s.headers.lookup id with
    | none => some (s, [])
    | some header =>
      if header.hash = ancestorHash then some (s, [])
      else
        let s := mark id header s
        (sweep mark ancestorHash turns (s.previousStored id) s).map fun (s, passed) =>
          (s, header :: passed)

/-- `handle_reorg`: the state, the depth and the deactivated headers. Without a common ancestor
nothing is done. -/
def handleReorg (reorgHeightThreshold : Nat) (s : Inner) (oldTipId newTipId : Nat) :
    Option (Inner × Nat × List BlockHeader) :=
  match findCommonAncestorSync reorgHeightThreshold s oldTipId newTipId with
  | none => none
  | some none => some (s, 0, [])
  | some (some ancestor) =>
    match sweep deactivate ancestor.hash (s.size + 1) (some oldTipId) s with
    | none => none
    | some (s, passed) =>
      match sweep activate ancestor.hash (s.size + 1) (some newTipId) s with
      | none => none
      | some (s, _) => some (s, passed.length, passed.map (·.toBlockHeader))

/-! ## Insertion -/

/-- The id, the link and the cumulative work that storage gives to a header. Without a stored parent
the link is the caller's. -/
def place (s : Inner) (header : LiveBlockHeader) : LiveBlockHeader :=
  match s.hashToId.lookup header.previousHash with
  | some prevId =>
    { header with
      headerId := some s.nextId
      previousHeaderId := some prevId
      chainWork := addWork (((s.headers.lookup prevId).map (·.chainWork)).getD 0)
        (calculateWork header.bits) }
  | none => { header with headerId := some s.nextId, chainWork := calculateWork header.bits }

/-- The old tip loses its mark. -/
def unmarkTip (s : Inner) : Inner :=
  match s.tipId with
  | none => s
  | some tipId =>
    match s.headers.lookup tipId with
    | none => s
    | some tip => { s with headers := s.headers.insert tipId { tip with isChainTip := false } }

/-- A header that is not on the active chain is found by its hash only. -/
def storeFork (s : Inner) (header : LiveBlockHeader) : Inner :=
  { s with
    headers := s.headers.insert s.nextId header
    hashToId := s.hashToId.insert header.hash s.nextId
    nextId := s.nextId + 1 }

/-- The new tip enters every index. -/
def storeTip (s : Inner) (header : LiveBlockHeader) : Inner :=
  { s.unmarkTip.storeFork { header with isActive := true, isChainTip := true } with
    heightToId := s.heightToId.insert header.height s.nextId
    merkleToId := s.merkleToId.insert header.merkleRoot s.nextId }

/-- `insert_header`; `none` when it does not return. -/
def insertHeader (reorgHeightThreshold : Nat) (header : LiveBlockHeader) (s : Inner) :
    Option (InsertHeaderResult × Inner) :=
  if header.hash ∈ s.hashToId then some ({ dupe := true }, s)
  else
    let noPrev := decide (header.previousHash ∉ s.hashToId ∧ header.previousHash ≠ zeroHash)
    let header := s.place header
    match s.tipId, s.findChainTipHeader with
    | some oldTipId, some tip =>
      let priorTip := some tip.toBlockHeader
      if isMoreWork header.chainWork tip.chainWork then
        if header.previousHash ≠ tip.hash then
          (handleReorg reorgHeightThreshold (s.storeTip header) oldTipId s.nextId).map
            fun (s', reorgDepth, deactivatedHeaders) =>
              ({ added := true, isActiveTip := true, noPrev, priorTip, reorgDepth,
                 deactivatedHeaders },
               { s' with tipId := some s.nextId })
        else
          some ({ added := true, isActiveTip := true, noPrev, priorTip },
            { s.storeTip header with tipId := some s.nextId })
      else some ({ added := true, noPrev }, s.storeFork header)
    | _, _ =>
      some ({ added := true, isActiveTip := true, noPrev, noTip := true },
        { s.storeTip header with tipId := some s.nextId })

/-! ## Removal -/

/-- The loop that removes a header and its entries in every index. -/
def remove (s : Inner) (ids : List Nat) : Inner :=
  ids.foldl (fun s id =>
    match s.headers.lookup id with
    | none => s
    | some h =>
      { s with
        headers := s.headers.erase id
        hashToId := s.hashToId.erase h.hash
        heightToId := s.heightToId.erase h.height
        merkleToId := s.merkleToId.erase h.merkleRoot }) s

/-- The ids of the headers that satisfy a condition. -/
def idsWhere (s : Inner) (p : LiveBlockHeader → Bool) : List Nat :=
  (s.headers.entries.filter fun e => p e.2).map Sigma.fst

/-- `prune_live_block_headers`. -/
def pruneLiveBlockHeaders (liveHeightThreshold activeTipHeight : Nat) (s : Inner) : Nat × Inner :=
  let threshold := activeTipHeight - liveHeightThreshold
  let toRemove := s.idsWhere fun h => !h.isActive && decide (h.height < threshold)
  (toRemove.length, s.remove toRemove)

/-- `delete_older_live_block_headers`. -/
def deleteOlderLiveBlockHeaders (maxHeight : Nat) (s : Inner) : Nat × Inner :=
  let toRemove := s.idsWhere fun h => decide (h.height ≤ maxHeight)
  let removed := s.remove toRemove
  (toRemove.length,
    { removed with tipId := removed.tipId.filter (· ∈ removed.headers) })

/-- `migrate_live_to_bulk`: the oldest active headers below the tip go to the archive, and every live
header up to the highest of them is removed. -/
def migrateLiveToBulk (count : Nat) (s : Inner) : Nat × Inner :=
  let active := s.values.filter fun h =>
    h.isActive && decide (some (h.headerId.getD 0) ≠ s.tipId)
  let candidates := (active.mergeSort fun a b => a.height ≤ b.height).take count
  match candidates.map (·.height) with
  | [] => (0, s)
  | height :: rest =>
    let maxHeight := rest.foldl max height
    let bulk := candidates.foldl (fun bulk h => bulk.insert h.height h.toBlockHeader) s.bulk
    (candidates.length,
      { s with bulk }.remove (s.idsWhere fun h => decide (h.height ≤ maxHeight)))

end Inner

end WalletToolbox.Chaintracks
