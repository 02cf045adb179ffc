import WalletToolbox.Chaintracks.Types
import WalletToolbox.Lib.BigEndian
import WalletToolbox.Methods.CreateAction
import Mathlib.Data.List.GetD

/-! # Work texts

The work functions as the source has them: on 32 bytes, the highest first, and on hex text.
The functions of the same names in `Types` are on numbers. -/

namespace WalletToolbox.Chaintracks.Work

open WalletToolbox.Lib.BigEndian
open WalletToolbox.Storage (hexDigit hexValue hexPair)

/-- `[u8; 32]`. -/
structure Bytes32 where
  bytes : List Nat
  length_eq : bytes.length = 32
  below : Below 256 bytes
deriving DecidableEq

namespace Bytes32

/-- The big-endian number. -/
def toNat (b : Bytes32) : Nat := value 256 b.bytes

def zero : Bytes32 where
  bytes := List.replicate 32 0
  length_eq := List.length_replicate
  below d hd := by simp [List.eq_of_mem_replicate hd]

theorem below_set {ds : List Nat} (h : Below 256 ds) (i : Nat) {d : Nat} (hd : d < 256) :
    Below 256 (ds.set i d) :=
  fun _ he => (List.mem_or_eq_of_mem_set he).elim (h _) fun heq => heq ▸ hd

/-- `b[i] = (x & 0xff) as u8`. -/
def setByte (b : Bytes32) (i x : Nat) : Bytes32 where
  bytes := b.bytes.set i (x % 256)
  length_eq := by rw [List.length_set, b.length_eq]
  below := below_set b.below i (Nat.mod_lt _ (by decide))

/-- A bit, counted from the highest one. -/
def bit (b : Bytes32) (i : Nat) : Bool := (b.bytes.getD (i / 8) 0).testBit (7 - i % 8)

theorem getD_lt (b : Bytes32) (i : Nat) : b.bytes.getD i 0 < 256 := by
  rcases Nat.lt_or_ge i b.bytes.length with hi | hi
  · rw [List.getD_eq_getElem _ _ hi]
    exact b.below _ (List.getElem_mem hi)
  · rw [List.getD_eq_default _ _ hi]
    decide

/-- `b[i / 8] |= bit << (7 - i % 8)`. -/
def orBit (b : Bytes32) (i : Nat) (bit : Bool) : Bytes32 where
  bytes := b.bytes.set (i / 8) (b.bytes.getD (i / 8) 0 ||| bit.toNat * 2 ^ (7 - i % 8))
  length_eq := by rw [List.length_set, b.length_eq]
  below := by
    refine below_set b.below _ ?_
    have hbit : bit.toNat * 2 ^ (7 - i % 8) < 2 ^ 8 :=
      calc bit.toNat * 2 ^ (7 - i % 8) ≤ 1 * 2 ^ (7 - i % 8) :=
            Nat.mul_le_mul_right _ (Bool.toNat_le bit)
        _ < 2 ^ 8 := by
          rw [Nat.one_mul]
          exact Nat.pow_lt_pow_right (by decide) (by omega)
    exact Nat.or_lt_two_pow (n := 8) (b.getD_lt _) hbit

end Bytes32

/-! ## Division -/

/-- One byte of `shl1_bytes32`. -/
def shl1Step (byte carry : Nat) : Nat × Nat := (byte * 2 % 256 ||| carry, byte / 2 ^ 7)

theorem shl1Step_lt {byte carry : Nat} (hbyte : byte < 256) (hcarry : carry ≤ 1) :
    (shl1Step byte carry).1 < 256 ∧ (shl1Step byte carry).2 ≤ 1 := by
  refine ⟨Nat.or_lt_two_pow (n := 8) (Nat.mod_lt _ (by decide)) (by omega), ?_⟩
  simp only [shl1Step]
  omega

/-- `shl1_bytes32`. -/
def shl1Bytes32 (b : Bytes32) : Bytes32 where
  bytes := (ripple shl1Step b.bytes).1
  length_eq := by rw [length_ripple, b.length_eq]
  below := below_ripple (P := (· ≤ 1)) (by decide) fun _ hx _ hc => shl1Step_lt (b.below _ hx) hc

/-- `cmp_bytes32`: the loop, on the bytes that are left. -/
def cmpBytes : List Nat → List Nat → Int
  | a :: as, b :: bs => if a < b then -1 else if b < a then 1 else cmpBytes as bs
  | _, _ => 0

/-- `cmp_bytes32`. -/
def cmpBytes32 (a b : Bytes32) : Int := cmpBytes a.bytes b.bytes

/-- One byte of `sub_bytes32`. -/
def subStep (bytes : Nat × Nat) (borrow : Nat) : Nat × Nat :=
  let diff : Int := bytes.1 - bytes.2 - borrow
  if diff < 0 then ((diff + 256).toNat, 1) else (diff.toNat, 0)

theorem subStep_lt {bytes : Nat × Nat} {borrow : Nat} (hfirst : bytes.1 < 256)
    (hsecond : bytes.2 < 256) (hborrow : borrow ≤ 1) :
    (subStep bytes borrow).1 < 256 ∧ (subStep bytes borrow).2 ≤ 1 := by
  unfold subStep
  by_cases hneg : (bytes.1 : Int) - bytes.2 - borrow < 0 <;> simp only [hneg, if_true, if_false] <;>
    omega

theorem Bytes32.zip_lt {a b : Bytes32} {x : Nat × Nat} (hx : x ∈ a.bytes.zip b.bytes) :
    x.1 < 256 ∧ x.2 < 256 :=
  ⟨a.below _ (List.of_mem_zip hx).1, b.below _ (List.of_mem_zip hx).2⟩

/-- `sub_bytes32`. -/
def subBytes32 (a b : Bytes32) : Bytes32 where
  bytes := (ripple subStep (a.bytes.zip b.bytes)).1
  length_eq := by rw [length_ripple, List.length_zip, a.length_eq, b.length_eq, Nat.min_self]
  below := below_ripple (P := (· ≤ 1)) (by decide) fun _ hx _ hc =>
    subStep_lt (Bytes32.zip_lt hx).1 (Bytes32.zip_lt hx).2 hc

/-- A turn of the loop of `bytes32_divmod`: the quotient and the remainder so far. -/
def divStep (a b : Bytes32) (qr : Bytes32 × Bytes32) (i : Nat) : Bytes32 × Bytes32 :=
  let r := (shl1Bytes32 qr.2).orBit 255 (a.bit i)
  if 0 ≤ cmpBytes32 r b then (qr.1.orBit i true, subBytes32 r b) else (qr.1, r)

/-- `bytes32_divmod`. -/
def bytes32Divmod (a b : Bytes32) : Bytes32 × Bytes32 :=
  (List.range 256).foldl (divStep a b) (Bytes32.zero, Bytes32.zero)

/-- `u128pair_to_bytes32`. -/
def u128pairToBytes32 (hi lo : Nat) : Bytes32 where
  bytes := digits 256 16 hi ++ digits 256 16 lo
  length_eq := by simp
  below := (below_digits (by decide) _ _).append (below_digits (by decide) _ _)

/-- `bytes32_to_u128pair`. -/
def bytes32ToU128pair (b : Bytes32) : Nat × Nat :=
  (value 256 (b.bytes.take 16), value 256 (b.bytes.drop 16))

/-- `div256`; `none` is its panic. -/
def div256 (aHi aLo bHi bLo : Nat) : Option (Nat × Nat) :=
  if bHi = 0 ∧ bLo = 0 then none
  else if bHi = 0 then
    let (qHi, r) := div128ByU128 aHi 0 bLo
    let (qLo, _) := div128ByU128 aLo r bLo
    some (qHi, qLo)
  else
    let a := u128pairToBytes32 aHi aLo
    let b := u128pairToBytes32 bHi bLo
    let (q, _) := bytes32Divmod a b
    some (bytes32ToU128pair q)

/-! ## Text -/

/-- `hex::encode`. -/
def hexEncode (bytes : List Nat) : String :=
  String.ofList (bytes.flatMap fun b => [hexDigit (b / 16), hexDigit (b % 16)])

/-- The format `016x` of a `u64`. -/
def hex16 (limb : Nat) : String := String.ofList ((digits 16 16 limb).map hexDigit)

/-- The bytes of the target that `calculate_work` decodes. -/
def targetBytes (bits : Nat) : Bytes32 :=
  let exponent := bits / 2 ^ 24 % 2 ^ 8
  let mantissa := bits % 2 ^ 23
  let start := 32 - exponent
  if 0 < exponent ∧ exponent ≤ 32 ∧ start + 2 < 32 then
    ((Bytes32.zero.setByte start (mantissa / 2 ^ 16)).setByte (start + 1) (mantissa / 2 ^ 8)).setByte
      (start + 2) mantissa
  else Bytes32.zero

/-- `calculate_work`; `none` when the division panics. -/
def calculateWork (bits : Nat) : Option String :=
  let (tHi, tLo) := bytes32ToU128pair (targetBytes bits)
  let notHi := 2 ^ 128 - 1 - tHi
  let notLo := 2 ^ 128 - 1 - tLo
  let t1Lo := (tLo + 1) % 2 ^ 128
  let t1Hi := (tHi + (tLo + 1) / 2 ^ 128) % 2 ^ 128
  (div256 notHi notLo t1Hi t1Lo).map fun (divHi, divLo) =>
    let resultLo := (divLo + 1) % 2 ^ 128
    let resultHi := (divHi + (divLo + 1) / 2 ^ 128) % 2 ^ 128
    hex16 (resultHi / 2 ^ 64) ++ hex16 (resultHi % 2 ^ 64) ++
      hex16 (resultLo / 2 ^ 64) ++ hex16 (resultLo % 2 ^ 64)

/-- The bytes of a text of digits, two for each. -/
def pairBytes : List Char → List Nat
  | a :: b :: rest => ((hexPair a b).getD 0).toNat :: pairBytes rest
  | _ => []

theorem below_pairBytes : ∀ chars : List Char, Below 256 (pairBytes chars)
  | [] => by simp [pairBytes, Below]
  | [_] => by simp [pairBytes, Below]
  | a :: b :: rest => below_cons.mpr ⟨UInt8.toNat_lt _, below_pairBytes rest⟩

theorem length_pairBytes : ∀ chars : List Char, (pairBytes chars).length = chars.length / 2
  | [] => rfl
  | [_] => by simp [pairBytes]
  | a :: b :: rest => by
    rw [pairBytes, List.length_cons, length_pairBytes rest, List.length_cons, List.length_cons]
    omega

/-- The digits of a text, its last 64 or as many zeros before them as are missing. -/
def paddedDigits (work : String) : List Char :=
  let clean := work.toList.filter fun c => (hexValue c).isSome
  let last := clean.drop (clean.length - 64)
  List.replicate (64 - last.length) '0' ++ last

theorem length_paddedDigits (work : String) : (paddedDigits work).length = 64 := by
  simp only [paddedDigits, List.length_append, List.length_replicate, List.length_drop]
  omega

/-- `work_hex_to_bytes32`. -/
def workHexToBytes32 (work : String) : Bytes32 where
  bytes := pairBytes (paddedDigits work)
  length_eq := by rw [length_pairBytes, length_paddedDigits]
  below := below_pairBytes _

/-- One byte of the loop of `add_work`. -/
def addStep (bytes : Nat × Nat) (carry : Nat) : Nat × Nat :=
  let sum := bytes.1 + bytes.2 + carry
  (sum % 256, sum / 2 ^ 8)

/-- `add_work`. -/
def addWork (work1 work2 : String) : String :=
  let a := workHexToBytes32 work1
  let b := workHexToBytes32 work2
  hexEncode (ripple addStep (a.bytes.zip b.bytes)).1

/-- `is_more_work`. -/
def isMoreWork (work1 work2 : String) : Bool :=
  decide (0 < cmpBytes32 (workHexToBytes32 work1) (workHexToBytes32 work2))

end WalletToolbox.Chaintracks.Work
