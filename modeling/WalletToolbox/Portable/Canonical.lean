import Mathlib.Algebra.Group.Nat.Defs
import Mathlib.Data.List.Lex
import WalletToolbox.Lib.JsonOrder

/-! # Canonical JSON

The payload of a backup has the same bytes wherever it is written: no blanks, keys in the order of
their UTF-16 code units, numbers as JavaScript prints them.
Only integers have such a text, and a null has none. -/

namespace WalletToolbox.Portable

open WalletToolbox.Lib

/-- The errors of the wallet that the portable formats return. -/
inductive WalletError where
  | badRequest (message : String)
  | internal (message : String)
deriving DecidableEq, Repr

/-! ## Numbers -/

/-- An f64: mantissa times a power of two, or none of the numbers. -/
inductive F64 where
  | finite (negative : Bool) (mantissa : Nat) (exponent : Int)
  | infinite (negative : Bool)
  | nan
deriving DecidableEq, Repr

namespace F64

def isFinite : F64 → Bool
  | finite _ _ _ => true
  | _ => false

/-- The value where `fract() == 0.0`. -/
def integral? : F64 → Option Int
  | finite negative mantissa exponent =>
    let magnitude : Option Nat :=
      if 0 ≤ exponent then some (mantissa * 2 ^ exponent.toNat)
      else if mantissa % 2 ^ (-exponent).toNat = 0 then some (mantissa / 2 ^ (-exponent).toNat)
      else none
    magnitude.map fun m => if negative then -(m : Int) else m
  | _ => none

/-- The nearest f64, to the even mantissa where two are as near. -/
def ofInt (i : Int) : F64 :=
  let shift := i.natAbs.log2 + 1 - 53
  let quotient := i.natAbs / 2 ^ shift
  let rest := i.natAbs % 2 ^ shift
  if 2 * rest > 2 ^ shift ∨ 2 * rest = 2 ^ shift ∧ quotient % 2 = 1 then
    finite (decide (i < 0)) (quotient + 1) shift
  else finite (decide (i < 0)) quotient shift

end F64

/-- A number of a JSON value: an integer of 64 bits, signed or not, or an f64. -/
inductive Number where
  | integer (i : Int) (h : -9223372036854775808 ≤ i ∧ i < 18446744073709551616)
  | float (f : F64)
deriving DecidableEq, Repr

namespace Number

def asI64 : Number → Option Int
  | integer i _ => if i < 9223372036854775808 then some i else none
  | float _ => none

def asU64 : Number → Option Nat
  | integer i _ => if 0 ≤ i then some i.toNat else none
  | float _ => none

def asF64 : Number → Option F64
  | integer i _ => some (F64.ofInt i)
  | float f => some f

end Number

/-- The largest integer that every f64 below it still counts in ones: 2^53 - 1. -/
def maxSafeInteger : Nat := 9007199254740991

abbrev Value := Json Number

/-- What is used of the JSON library: how it prints a number, and its parser. -/
structure SerdeJson where
  display : Number → String
  fromStr : String → Except String Value

/-! ## Texts -/

/-- The decimal digits of an integer, with its sign. -/
def integerText (i : Int) : List Char :=
  if i < 0 then '-' :: Nat.toDigits 10 i.natAbs else Nat.toDigits 10 i.natAbs

/-- Format a JSON number the way `JSON.stringify` would, restricted to integers. -/
def canonicalNumber (display : Number → String) (n : Number) : Except WalletError (List Char) :=
  match n.asI64 with
  | some i => .ok (integerText i)
  | none =>
    match n.asU64 with
    | some u => .ok (integerText u)
    | none =>
      let rejected : Except WalletError (List Char) :=
        .error (.badRequest ("Cannot canonicalize non-integer number: " ++ display n))
      match n.asF64 with
      | none => rejected
      | some f =>
        if !f.isFinite then .error (.badRequest "Cannot canonicalize non-finite number")
        else
          match f.integral? with
          | some i => if i.natAbs ≤ maxSafeInteger then .ok (integerText i) else rejected
          | none => rejected

/-- The UTF-16 code units of a character. -/
def utf16 (c : Char) : List Nat :=
  if c.toNat < 0x10000 then [c.toNat]
  else [0xD800 + (c.toNat - 0x10000) / 0x400, 0xDC00 + (c.toNat - 0x10000) % 0x400]

def encodeUtf16 (s : String) : List Nat := s.toList.flatMap utf16

/-- Compare strings by UTF-16 code units. -/
def jsStringCmp (a b : String) : Ordering := compareOfLessAndEq (encodeUtf16 a) (encodeUtf16 b)

def hexDigit (n : Nat) : Char := Nat.digitChar n

/-- A character as `JSON.stringify` escapes it. -/
def escapeChar (c : Char) : List Char :=
  if c = '"' then ['\\', '"']
  else if c = '\\' then ['\\', '\\']
  else if c = '\x08' then ['\\', 'b']
  else if c = '\t' then ['\\', 't']
  else if c = '\n' then ['\\', 'n']
  else if c = '\x0c' then ['\\', 'f']
  else if c = '\r' then ['\\', 'r']
  else if c.toNat < 32 then ['\\', 'u', '0', '0', hexDigit (c.toNat / 16), hexDigit (c.toNat % 16)]
  else [c]

def escapeJsonString (s : String) : List Char :=
  '"' :: (s.toList.flatMap escapeChar ++ ['"'])

/-! ## Values -/

mutual

def writeCanonical (display : Number → String) : Value → Except WalletError (List Char)
  | .null => .error (.badRequest "Cannot canonicalize null or undefined")
  | .bool b => .ok (if b then "true".toList else "false".toList)
  | .number n => canonicalNumber display n
  | .string s => .ok (escapeJsonString s)
  | .array items => do
    let texts ← (writeItems display items).mapM id
    return '[' :: (Json.separated texts ++ [']'])
  | .object fields => do
    -- The keys are sorted first, so the first error is that of the first key.
    let entries := (writeFields display fields).insertionSort fun f g => (jsStringCmp f.1 g.1).isLE
    let texts ← entries.mapM fun (key, result) => do
      let text ← result
      return escapeJsonString key ++ ':' :: text
    return '{' :: (Json.separated texts ++ ['}'])

def writeItems (display : Number → String) : List Value → List (Except WalletError (List Char))
  | [] => []
  | v :: rest => writeCanonical display v :: writeItems display rest

def writeFields (display : Number → String) :
    List (String × Value) → List (String × Except WalletError (List Char))
  | [] => []
  | (key, v) :: rest => (key, writeCanonical display v) :: writeFields display rest

end

/-- Serialize a JSON value to its canonical string form. -/
def canonicalize (display : Number → String) (value : Value) : Except WalletError String :=
  (writeCanonical display value).map String.ofList

end WalletToolbox.Portable
