import WalletToolbox.Chaintracks.Types
import WalletToolbox.Lib.BigEndian
import WalletToolbox.Lib.Paging
import WalletToolbox.Methods.CreateAction

/-! # Header bytes

A header in its 80 bytes, and the two readers of header files.
The bytes hold the hashes in the order in which they were computed, the texts in the reversed one.
SHA-256 is a parameter. -/

namespace WalletToolbox.Chaintracks

open WalletToolbox.Lib
open WalletToolbox.Storage (Bytes bytesToHex hexValue)

/-- `u32::to_le_bytes`. -/
def u32ToLeBytes (n : Nat) : Bytes := ((BigEndian.digits 256 4 n).map UInt8.ofNat).reverse

/-- `u32::from_le_bytes`. -/
def u32FromLeBytes (bytes : Bytes) : Nat := BigEndian.value 256 (bytes.reverse.map UInt8.toNat)

/-- `hex::decode`; `none` on a character that is no digit and on an odd number of them. -/
def hexDecode : List Char → Option Bytes
  | [] => some []
  | [_] => none
  | a :: b :: rest =>
    match hexValue a, hexValue b with
    | some x, some y => (hexDecode rest).map (UInt8.ofNat (16 * x + y) :: ·)
    | _, _ => none

/-- `display_hex_to_internal`: text that is no hex counts as zeros, a short one is filled with zeros
and a long one is cut. -/
def displayHexToInternal (hex : String) : Bytes :=
  let decoded := (hexDecode hex.toList).getD (List.replicate 32 0)
  (decoded.take 32 ++ List.replicate (32 - decoded.length) 0).reverse

/-- `BaseBlockHeader::to_bytes`. -/
def BaseBlockHeader.toBytes (h : BaseBlockHeader) : Bytes :=
  u32ToLeBytes h.version ++ displayHexToInternal h.previousHash ++ displayHexToInternal h.merkleRoot ++
    u32ToLeBytes h.time ++ u32ToLeBytes h.bits ++ u32ToLeBytes h.nonce

/-- The six raw fields. -/
def BlockHeader.base (h : BlockHeader) : BaseBlockHeader where
  version := h.version
  previousHash := h.previousHash
  merkleRoot := h.merkleRoot
  time := h.time
  bits := h.bits
  nonce := h.nonce

/-- `compute_block_hash`: of the free function and of the method of BulkWocIngestor. -/
def computeBlockHash (sha256 : Bytes → Bytes) (headerBytes : Bytes) : String :=
  bytesToHex (sha256 (sha256 headerBytes)).reverse

/-- `data[from..to]`. -/
def slice (data : Bytes) (start stop : Nat) : Bytes := (data.drop start).take (stop - start)

/-- `BulkCdnIngestor::deserialize_header`. -/
def BulkCdnIngestor.deserializeHeader (sha256 : Bytes → Bytes) (data : Bytes) (height : Nat) :
    BlockHeader where
  version := u32FromLeBytes (slice data 0 4)
  previousHash := bytesToHex (slice data 4 36)
  merkleRoot := bytesToHex (slice data 36 68)
  time := u32FromLeBytes (slice data 68 72)
  bits := u32FromLeBytes (slice data 72 76)
  nonce := u32FromLeBytes (slice data 76 80)
  height := height
  hash := computeBlockHash sha256 data

/-- `BulkWocIngestor::deserialize_header`. -/
def BulkWocIngestor.deserializeHeader (sha256 : Bytes → Bytes) (data : Bytes) (height : Nat) :
    BlockHeader where
  version := u32FromLeBytes (slice data 0 4)
  previousHash := bytesToHex (slice data 4 36).reverse
  merkleRoot := bytesToHex (slice data 36 68).reverse
  time := u32FromLeBytes (slice data 68 72)
  bits := u32FromLeBytes (slice data 72 76)
  nonce := u32FromLeBytes (slice data 76 80)
  height := height
  hash := computeBlockHash sha256 data

/-- The loop of `parse_headers`, which ends at an incomplete chunk. Heights are `u32`. -/
def parseHeadersWith (deserialize : Bytes → Nat → BlockHeader) (data : Bytes) (startHeight : Nat) :
    List BlockHeader :=
  ((chunks 80 data).takeWhile fun chunk => chunk.length = 80).mapIdx fun i chunk =>
    deserialize chunk ((startHeight + i) % 2 ^ 32)

/-- `BulkCdnIngestor::parse_headers`. -/
def BulkCdnIngestor.parseHeaders (sha256 : Bytes → Bytes) : Bytes → Nat → List BlockHeader :=
  parseHeadersWith (deserializeHeader sha256)

/-- `BulkWocIngestor::parse_headers`. -/
def BulkWocIngestor.parseHeaders (sha256 : Bytes → Bytes) : Bytes → Nat → List BlockHeader :=
  parseHeadersWith (deserializeHeader sha256)

end WalletToolbox.Chaintracks
