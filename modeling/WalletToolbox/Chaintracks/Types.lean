import Mathlib.Algebra.Group.Nat.Defs
import Mathlib.Data.List.AList
import Mathlib.Tactic.Common

/-! # Block headers

The header types of Chaintracks and the arithmetic of chain work.
A work value is a 64-digit hex text in the source, read and written as a 256-bit number; here it is
the number. Heights, ids, versions, times, bits and nonces are natural numbers. -/

namespace WalletToolbox.Chaintracks

/-- `HeightRange`: an inclusive range of heights. -/
structure HeightRange where
  low : Nat
  high : Nat
deriving DecidableEq, Repr

/-- `BaseBlockHeader`: the six raw fields. -/
structure BaseBlockHeader where
  version : Nat
  previousHash : String
  merkleRoot : String
  time : Nat
  bits : Nat
  nonce : Nat
deriving DecidableEq, Repr

/-- `BlockHeader`: with its height and its hash. -/
structure BlockHeader where
  version : Nat
  previousHash : String
  merkleRoot : String
  time : Nat
  bits : Nat
  nonce : Nat
  height : Nat
  hash : String
deriving DecidableEq, Repr

/-- `LiveBlockHeader`: with its place in the chain. -/
structure LiveBlockHeader where
  version : Nat
  previousHash : String
  merkleRoot : String
  time : Nat
  bits : Nat
  nonce : Nat
  height : Nat
  hash : String
  chainWork : Nat
  isChainTip : Bool
  isActive : Bool
  headerId : Option Nat
  previousHeaderId : Option Nat
deriving DecidableEq, Repr

/-- `impl From<LiveBlockHeader> for BlockHeader`. -/
def LiveBlockHeader.toBlockHeader (live : LiveBlockHeader) : BlockHeader where
  version := live.version
  previousHash := live.previousHash
  merkleRoot := live.merkleRoot
  time := live.time
  bits := live.bits
  nonce := live.nonce
  height := live.height
  hash := live.hash

/-- `InsertHeaderResult` with its defaults. No backend sets `badPrev` or `noActiveAncestor`. -/
structure InsertHeaderResult where
  added : Bool := false
  dupe : Bool := false
  isActiveTip : Bool := false
  reorgDepth : Nat := 0
  priorTip : Option BlockHeader := none
  deactivatedHeaders : List BlockHeader := []
  noPrev : Bool := false
  badPrev : Bool := false
  noActiveAncestor : Bool := false
  noTip : Bool := false
deriving DecidableEq, Repr

/-- `ZERO_HASH`: the previous hash of a header without a parent. -/
def zeroHash : String := String.ofList (List.replicate 64 '0')

/-- `to_block_header_at_height`. `blockHash` is `compute_block_hash` of the 80 bytes: their double
SHA-256 in the display order. -/
def BaseBlockHeader.toBlockHeaderAtHeight (blockHash : BaseBlockHeader → String)
    (h : BaseBlockHeader) (height : Nat) : BlockHeader where
  version := h.version
  previousHash := h.previousHash
  merkleRoot := h.merkleRoot
  time := h.time
  bits := h.bits
  nonce := h.nonce
  height := height
  hash := blockHash h

/-! ## Chain work -/

/-- `div128_by_u128`: long division over four 64-bit limbs. The quotient keeps the two lowest ones,
and a remainder of more than 64 bits loses its top when it is shifted. -/
def div128ByU128 (hi lo d : Nat) : Nat × Nat :=
  let limbs := [hi / 2 ^ 64, hi % 2 ^ 64, lo / 2 ^ 64, lo % 2 ^ 64]
  let (quotients, r) := limbs.foldl (fun (quotients, r) limb =>
    let cur := r * 2 ^ 64 % 2 ^ 128 + limb
    (quotients ++ [cur / d % 2 ^ 64], cur % d)) (([] : List Nat), 0)
  (quotients.getD 2 0 * 2 ^ 64 + quotients.getD 3 0, r)

/-- `bytes32_divmod`: bit by bit from the top. -/
def bytes32Divmod (a b : Nat) : Nat × Nat :=
  (List.range 256).foldl (fun (q, r) i =>
    let r := 2 * r % 2 ^ 256 + a / 2 ^ (255 - i) % 2
    if b ≤ r then (2 * q + 1, r - b) else (2 * q, r)) (0, 0)

/-- `div256` on a divisor that is not zero, with its own path for a divisor below `2 ^ 128`. -/
def div256 (aHi aLo bHi bLo : Nat) : Nat × Nat :=
  if bHi = 0 then
    let (qHi, r) := div128ByU128 aHi 0 bLo
    let (qLo, _) := div128ByU128 aLo r bLo
    (qHi, qLo)
  else
    let (q, _) := bytes32Divmod (aHi * 2 ^ 128 + aLo) (bHi * 2 ^ 128 + bLo)
    (q / 2 ^ 128, q % 2 ^ 128)

/-- The target of a compact difficulty; zero when the exponent leaves no place for the mantissa. -/
def targetOf (bits : Nat) : Nat :=
  let exponent := bits / 2 ^ 24 % 2 ^ 8
  if 3 ≤ exponent ∧ exponent ≤ 32 then bits % 2 ^ 23 * 256 ^ (exponent - 3) else 0

/-- `calculate_work`: the work of a single block. -/
def calculateWork (bits : Nat) : Nat :=
  let target := targetOf bits
  let notTarget := 2 ^ 256 - 1 - target
  let (hi, lo) := div256 (notTarget / 2 ^ 128) (notTarget % 2 ^ 128)
    ((target + 1) / 2 ^ 128) ((target + 1) % 2 ^ 128)
  (hi * 2 ^ 128 + lo + 1) % 2 ^ 256

/-- `add_work`: what exceeds 256 bits is dropped. -/
def addWork (work1 work2 : Nat) : Nat := (work1 + work2) % 2 ^ 256

/-- `is_more_work`. -/
def isMoreWork (work1 work2 : Nat) : Bool := decide (work2 < work1)

theorem isMoreWork_iff {work1 work2 : Nat} : isMoreWork work1 work2 = true ↔ work2 < work1 :=
  decide_eq_true_iff

end WalletToolbox.Chaintracks
