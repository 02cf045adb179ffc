import WalletToolbox.Storage.Tables

/-! # Transactions, BEEFs and the SDK

The toolbox parses, serializes and hashes through an SDK that is not part of the repository.
Its values are plain records here and its functions are the fields of `Sdk`, so every result
holds for any SDK.
Base64 is spelled out because the stored references are base64 text. -/

namespace WalletToolbox

open WalletToolbox.Storage

/-- An outpoint a transaction spends; an SDK input may carry no source txid. -/
structure TxInput where
  sourceTxid : Option String
  sourceOutputIndex : Nat
deriving DecidableEq

structure TxOutput where
  satoshis : Option Nat
  lockingScript : Bytes
deriving DecidableEq

/-- A parsed transaction. -/
structure Tx where
  version : Nat
  inputs : List TxInput
  outputs : List TxOutput
  lockTime : Nat
deriving DecidableEq

/-- A node of a merkle path level; `txid` flags the leaves a bump proves, and a duplicate repeats
its neighbour. -/
structure MerkleLeaf where
  offset : Nat
  hash : Option String
  txid : Bool
  duplicate : Bool := false
deriving DecidableEq

structure MerklePath where
  blockHeight : Nat
  path : List (List MerkleLeaf)

structure BeefTx where
  txid : String
  tx : Option Tx
  bumpIndex : Option Nat
  inputTxids : List String

structure Beef where
  atomicTxid : Option String
  txs : List BeefTx
  bumps : List MerklePath

/-- `Beef::new`. -/
def Beef.empty : Beef :=
  { atomicTxid := none, txs := [], bumps := [] }

/-- `Beef::find_txid`. -/
def Beef.findTxid (b : Beef) (txid : String) : Option BeefTx :=
  b.txs.find? (·.txid == txid)

def BeefTx.isTxidOnly (b : BeefTx) : Bool :=
  b.tx.isNone

def BeefTx.hasProof (b : BeefTx) : Bool :=
  b.bumpIndex.isSome

/-- The functions of the SDK that the modelled code calls. -/
structure Sdk where
  /-- `Transaction::from_binary`. -/
  parseTx : Bytes → Except String Tx
  /-- `Transaction::to_bytes`. -/
  txBytes : Tx → Except String Bytes
  /-- `Transaction::id`: the double hash of the serialized transaction, in hex. -/
  txidOf : Tx → Except String String
  /-- `Beef::from_binary`. -/
  parseBeef : Bytes → Except String Beef
  /-- `Beef::to_binary`. -/
  beefBytes : Beef → Except String Bytes
  /-- `Beef::merge_beef_from_binary`. -/
  mergeBeef : Beef → Bytes → Except String Beef
  /-- `Beef::merge_raw_tx`. -/
  mergeRawTx : Beef → Bytes → Except String Beef
  /-- `Beef::sort_txs`. -/
  sortTxs : Beef → Beef
  /-- `MerklePath::compute_root`. -/
  computeRoot : MerklePath → Option String → Except String String
  /-- `MerklePath::to_binary`. -/
  bumpBytes : MerklePath → Except String Bytes

/-- `ChainTracker::is_valid_root_for_height`. -/
abbrev ChainTracker := String → Nat → Except String Bool

/-- The value of an integer after a cast to `i64` or a wrapping `i64` operation. -/
def asI64 (n : Int) : Int :=
  (n + 9223372036854775808) % 18446744073709551616 - 9223372036854775808

/-! ## Base64 -/

/-- The standard alphabet. -/
def base64Alphabet : List Char :=
  "ABCDEFGHIJKLMNOPQRSTUVWXYZabcdefghijklmnopqrstuvwxyz0123456789+/".toList

def base64Char (n : Nat) : Char :=
  base64Alphabet.getD (n % 64) 'A'

/-- Standard base64 with padding. -/
def base64Chars : Bytes → List Char
  | [] => []
  | [a] =>
    let n := a.toNat * 16
    [base64Char (n / 64), base64Char n, '=', '=']
  | [a, b] =>
    let n := (a.toNat * 256 + b.toNat) * 4
    [base64Char (n / 4096), base64Char (n / 64), base64Char n, '=']
  | a :: b :: c :: rest =>
    let n := a.toNat * 65536 + b.toNat * 256 + c.toNat
    base64Char (n / 262144) :: base64Char (n / 4096) :: base64Char (n / 64) :: base64Char n ::
      base64Chars rest

def base64Encode (bytes : Bytes) : String :=
  String.ofList (base64Chars bytes)

/-- The text of bytes that are valid UTF-8. -/
def utf8? (bytes : Bytes) : Option String :=
  String.fromUTF8? ⟨bytes.toArray⟩

example : base64Encode [0x4d, 0x61] = "TWE=" := by decide +kernel

end WalletToolbox
