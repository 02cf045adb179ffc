import WalletToolbox.Chaintracks.HeaderBytes
import WalletToolbox.Chaintracks.Memory

/-! # Served headers

What the two backends report of their headers: the archived heights, and the bytes of a range of
heights. A sum of heights is a `u32`. -/

namespace WalletToolbox.Chaintracks

open WalletToolbox.Storage (Bytes)

/-- A turn of `contiguous_ranges`: the last range grows by the next height, or a new one starts. -/
def extendRanges (ranges : List HeightRange) (height : Nat) : List HeightRange :=
  match ranges.getLast? with
  | some last =>
    if height = last.high + 1 then ranges.dropLast ++ [{ last with high := height }]
    else ranges ++ [⟨height, height⟩]
  | none => [⟨height, height⟩]

/-- `contiguous_ranges`. -/
def contiguousRanges (heights : List Nat) : List HeightRange := heights.foldl extendRanges []

/-- `get_available_height_ranges`: of the archive, whose keys are in ascending order. -/
def Inner.getAvailableHeightRanges (s : Inner) : List HeightRange :=
  contiguousRanges (s.bulk.keys.mergeSort fun a b => a ≤ b)

/-- The end of a range of heights. -/
def rangeEnd (height count : Nat) : Nat := (height + count) % 2 ^ 32

/-- `get_headers_bytes` of MemoryStorage. Each height is looked up as by `find_header_for_height`. -/
def Inner.getHeadersBytes (s : Inner) (height count : Nat) : Bytes :=
  (List.range' height (rangeEnd height count - height)).flatMap fun h =>
    match s.findHeaderForHeight h with
    | some header => header.base.toBytes
    | none => []

/-! ## SQLite -/

/-- The two tables of headers, with their rows in the order of the queries by height. -/
structure SqliteStorage where
  live : List LiveBlockHeader := []
  bulk : List BlockHeader := []

/-- The bytes of a hash field: text that is not the hex of 32 bytes counts as zeros. -/
def fieldBytes (hex : String) : Bytes :=
  match hexDecode hex.toList with
  | some decoded => if decoded.length = 32 then decoded else List.replicate 32 0
  | none => List.replicate 32 0

/-- `header_fields_to_bytes`. -/
def headerFieldsToBytes (h : BaseBlockHeader) : Bytes :=
  u32ToLeBytes h.version ++ fieldBytes h.previousHash ++ fieldBytes h.merkleRoot ++
    u32ToLeBytes h.time ++ u32ToLeBytes h.bits ++ u32ToLeBytes h.nonce

/-- `get_headers_bytes` of SqliteStorage: the archived rows and then the live ones enter a map by
height. -/
def SqliteStorage.getHeadersBytes (s : SqliteStorage) (height count : Nat) : Bytes :=
  if count = 0 then []
  else
    let stop := rangeEnd height count
    let live := s.live.filter fun h =>
      decide (height ≤ h.height) && decide (h.height < stop) && h.isActive
    let bulk := s.bulk.filter fun h => decide (height ≤ h.height) && decide (h.height < stop)
    let archived := bulk.foldl (fun byHeight h => byHeight.insert h.height (headerFieldsToBytes h.base))
      (∅ : AList fun _ : Nat => Bytes)
    let byHeight := live.foldl (fun byHeight h =>
      byHeight.insert h.height (headerFieldsToBytes h.toBlockHeader.base)) archived
    (byHeight.keys.mergeSort fun a b => a ≤ b).flatMap fun h => (byHeight.lookup h).getD []

end WalletToolbox.Chaintracks
