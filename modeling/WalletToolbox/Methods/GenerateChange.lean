import Mathlib.Algebra.GroupWithZero.Nat
import Mathlib.Data.List.Sort
import WalletToolbox.Sdk

/-! # Change generation

The coin selection of createAction: allocate change inputs, create change outputs, drop outputs
that cannot be funded, and spread the excess.
Amounts are 64-bit machine words, as in the source.
Every loop is bounded by a count that its own progress respects: a funding round allocates one
more input, a starvation round drops an output, and an excess round at least halves the
excess. -/

namespace WalletToolbox.Storage

def maxPossibleSatoshis : UInt64 := 2099999999999999

structure AvailableChange where
  outputId : Nat
  satoshis : UInt64
  spendable : Bool := true
deriving DecidableEq

structure AllocatedChangeInputRef where
  outputId : Nat
  satoshis : UInt64
deriving DecidableEq

structure FixedInput where
  satoshis : UInt64
  unlockingScriptLength : Nat

structure FixedOutput where
  satoshis : UInt64
  lockingScriptLength : Nat

structure StorageFeeModel where
  model : String := "sat/kb"
  value : UInt64 := 100

structure GenerateChangeSdkArgs where
  fixedInputs : List FixedInput
  fixedOutputs : List FixedOutput
  feeModel : StorageFeeModel
  changeInitialSatoshis : UInt64
  changeFirstSatoshis : UInt64
  changeLockingScriptLength : Nat
  changeUnlockingScriptLength : Nat
  targetNetCount : Option Int

structure MaxPossibleSatoshisAdjustment where
  fixedOutputIndex : Nat
  satoshis : UInt64

structure GenerateChangeSdkResult where
  /-- The satoshis of the change outputs. -/
  changeOutputs : List UInt64
  allocatedChangeInputs : List AllocatedChangeInputRef
  size : Nat
  fee : UInt64
  satsPerKb : UInt64
  maxPossibleSatoshisAdjustment : Option MaxPossibleSatoshisAdjustment

/-! ## Transaction size -/

def varUintSize (n : Nat) : Nat :=
  if n ≤ 0xfc then 1 else if n ≤ 0xffff then 3 else if n ≤ 0xffffffff then 5 else 9

def transactionInputSize (scriptSize : Nat) : Nat :=
  32 + 4 + varUintSize scriptSize + scriptSize + 4

def transactionOutputSize (scriptSize : Nat) : Nat :=
  varUintSize scriptSize + scriptSize + 8

def transactionSize (inputScriptLengths outputScriptLengths : List Nat) : Nat :=
  4 + varUintSize inputScriptLengths.length + (inputScriptLengths.map transactionInputSize).sum +
    varUintSize outputScriptLengths.length + (outputScriptLengths.map transactionOutputSize).sum + 4

/-! ## The allocator -/

/-- The change that can be allocated: what the caller names for a noSend chain, and the pool. -/
structure ChangeStorage where
  change : List AvailableChange
  noSendChange : List AvailableChange

/-- Pool order: by amount, then by id. -/
def changeBefore (a b : AvailableChange) : Bool :=
  a.satoshis < b.satoshis || (a.satoshis == b.satoshis && a.outputId ≤ b.outputId)

def ChangeStorage.withNoSendChange (noSendChange available : List AvailableChange) :
    ChangeStorage where
  change := (available.map fun c => { c with spendable := true }).insertionSort
    fun a b => changeBefore a b = true
  noSendChange := noSendChange.map fun c => { c with spendable := true }

/-- Take the first entry that satisfies a condition out of use. -/
def takeFirst (p : AvailableChange → Bool) :
    List AvailableChange → Option (AllocatedChangeInputRef × List AvailableChange)
  | [] => none
  | c :: rest =>
    if c.spendable && p c then
      some (⟨c.outputId, c.satoshis⟩, { c with spendable := false } :: rest)
    else
      (takeFirst p rest).map fun r => (r.1, c :: r.2)

/-- Take the last usable entry out of use. -/
def takeLast (cs : List AvailableChange) :
    Option (AllocatedChangeInputRef × List AvailableChange) :=
  (takeFirst (fun _ => true) cs.reverse).map fun r => (r.1, r.2.reverse)

/-- `ChangeStorage::allocate`: noSendChange last-first, then an exact match, then the smallest
that covers the target, then the largest. -/
def ChangeStorage.allocate (storage : ChangeStorage) (target : UInt64) (exact : Option UInt64) :
    Option (AllocatedChangeInputRef × ChangeStorage) :=
  match takeLast storage.noSendChange with
  | some (input, noSendChange) => some (input, { storage with noSendChange })
  | none =>
    let found :=
      match exact with
      | some amount => takeFirst (·.satoshis == amount) storage.change
      | none => none
    let found := found.or (takeFirst (target ≤ ·.satoshis) storage.change)
    let found := found.or (takeLast storage.change)
    found.map fun r => (r.1, { storage with change := r.2 })

/-- Put the first entry with an id back into use. -/
def putBack (id : Nat) : List AvailableChange → Option (List AvailableChange)
  | [] => none
  | c :: rest =>
    if c.outputId = id then some ({ c with spendable := true } :: rest)
    else (putBack id rest).map (c :: ·)

/-- `ChangeStorage::release`. -/
def ChangeStorage.release (storage : ChangeStorage) (id : Nat) : ChangeStorage :=
  match putBack id storage.noSendChange with
  | some noSendChange => { storage with noSendChange }
  | none =>
    match putBack id storage.change with
    | some change => { storage with change }
    | none => storage

/-! ## Fees -/

/-- `validate_params`: the index of the output that asks for the largest fundable amount. -/
def validateParams (args : GenerateChangeSdkArgs) : Except WalletError (Option Nat) :=
  if args.feeModel.model != "sat/kb" then
    .error (.invalidParameter "fee_model.model" "'sat/kb'")
  else
    args.fixedOutputs.zipIdx.foldlM (fun found (o, i) =>
      if o.satoshis == maxPossibleSatoshis then
        if found.isSome then
          .error (.invalidParameter s!"fixed_outputs[{i}].satoshis"
            "valid satoshis amount. Only one 'maxPossibleSatoshis' output allowed.")
        else .ok (some i)
      else .ok found) none

/-- The state of the selection. -/
structure Selection where
  storage : ChangeStorage
  allocated : List AllocatedChangeInputRef
  changeOutputs : List UInt64
  fixedOutputSatoshis : List UInt64

section Fees

variable (args : GenerateChangeSdkArgs)

def computeSize (allocatedLen changeLen addedInputs addedOutputs : Nat) : Nat :=
  transactionSize
    (args.fixedInputs.map (·.unlockingScriptLength) ++
      List.replicate (allocatedLen + addedInputs) args.changeUnlockingScriptLength)
    (args.fixedOutputs.map (·.lockingScriptLength) ++
      List.replicate (changeLen + addedOutputs) args.changeLockingScriptLength)

/-- `u64::div_ceil` by 1000. -/
def divCeil1000 (n : UInt64) : UInt64 :=
  if n % 1000 > 0 then n / 1000 + 1 else n / 1000

def feeTarget (allocatedLen changeLen addedInputs addedOutputs : Nat) : UInt64 :=
  divCeil1000
    (UInt64.ofNat (computeSize args allocatedLen changeLen addedInputs addedOutputs) *
      args.feeModel.value)

def sumU64 (xs : List UInt64) : UInt64 :=
  xs.foldl (· + ·) 0

def funding (allocated : List AllocatedChangeInputRef) : UInt64 :=
  sumU64 (args.fixedInputs.map (·.satoshis)) + sumU64 (allocated.map (·.satoshis))

/-- `fee_excess`: positive when overfunded, negative when underfunded. -/
def feeExcess (s : Selection) (addedInputs addedOutputs : Nat) : Int64 :=
  (funding args s.allocated).toInt64 - (sumU64 s.fixedOutputSatoshis).toInt64 -
    (sumU64 s.changeOutputs).toInt64 -
    (feeTarget args s.allocated.length s.changeOutputs.length addedInputs addedOutputs).toInt64

def releaseAll (s : Selection) : Selection :=
  { s with
    storage := s.allocated.reverse.foldl (fun st i => st.release i.outputId) s.storage
    allocated := [] }

/-! ## Selection -/

def netChangeCount (s : Selection) : Int :=
  (s.changeOutputs.length : Int) - s.allocated.length

def nextChange (s : Selection) : UInt64 :=
  if s.changeOutputs.isEmpty then args.changeFirstSatoshis else args.changeInitialSatoshis

/-- The change outputs wanted at the start; some may be dropped later. -/
def wantOutputs : Nat → Selection → Selection
  | 0, s => s
  | bound + 1, s =>
    if args.targetNetCount.any (netChangeCount s < ·) ||
        (s.changeOutputs.isEmpty && feeExcess args s 0 0 > 0) then
      wantOutputs bound { s with changeOutputs := s.changeOutputs ++ [nextChange args s] }
    else
      s

/-- Whether a new input should bring a change output with it. -/
def shouldAddOutput (s : Selection) : Bool :=
  args.targetNetCount.any (netChangeCount s - 1 < ·)

/-- The amount that an input should bring. -/
def targetSatoshis (s : Selection) (addOutput : Bool) : UInt64 :=
  let deficit := -(feeExcess args s 1 (if addOutput then 1 else 0))
  let extra := if addOutput then 2 * args.changeInitialSatoshis else 0
  if deficit > 0 then deficit.toUInt64 + extra else extra

/-- The amount that would need no change output at all. -/
def exactSatoshis (s : Selection) : Option UInt64 :=
  if args.targetNetCount.isNone && s.changeOutputs.isEmpty then
    let deficit := -(feeExcess args s 1 0)
    if deficit > 0 then some deficit.toUInt64 else none
  else
    none

/-- The inner funding loop. -/
def fund (removing : Bool) : Nat → Selection → Selection
  | 0, s => s
  | bound + 1, s =>
    if feeExcess args s 0 0 < 0 then
      let addOutput := shouldAddOutput args s
      match s.storage.allocate (targetSatoshis args s addOutput) (exactSatoshis args s) with
      | none => s
      | some (input, storage) =>
        let s := { s with storage, allocated := s.allocated ++ [input] }
        let excess := feeExcess args s 0 0
        if !removing && excess > 0 && (addOutput || s.changeOutputs.isEmpty) then
          fund removing bound
            { s with changeOutputs := s.changeOutputs ++ [min excess.toUInt64 (nextChange args s)] }
        else
          fund removing bound s
    else
      s

/-- Drop change outputs until the rest is funded. -/
def dropOutputs : Nat → Selection → Selection
  | 0, s => s
  | bound + 1, s =>
    if !s.changeOutputs.isEmpty && feeExcess args s 0 0 < 0 then
      dropOutputs bound { s with changeOutputs := s.changeOutputs.dropLast }
    else
      s

/-- Drop change outputs that an input would fund alone. -/
def dropChurn : Nat → List UInt64 → List AllocatedChangeInputRef → List UInt64
  | 0, outputs, _ => outputs
  | bound + 1, outputs, inputs =>
    if inputs.length > 1 && outputs.length > 1 then
      match inputs.findIdx? fun i => i.satoshis ≤ outputs.getLastD 0 with
      | none => outputs
      | some i => dropChurn bound outputs.dropLast (inputs.eraseIdx i)
    else
      outputs

/-- The starvation loop. Once outputs were removed, funding adds none. -/
def starve (pool : Nat) : Nat → Bool → Selection → Selection
  | 0, _, s => s
  | bound + 1, removing, s =>
    let s := fund args removing (pool + 1) (releaseAll s)
    if feeExcess args s 0 0 ≥ 0 || s.changeOutputs.isEmpty then s
    else
      let s := dropOutputs args (s.changeOutputs.length + 1) s
      if feeExcess args s 0 0 < 0 then s
      else
        starve pool bound true
          { s with changeOutputs :=
              dropChurn s.changeOutputs.length s.changeOutputs s.allocated }

/-- Give the excess to the first change output. -/
def distribute : Nat → Int64 → List UInt64 → List UInt64
  | 0, _, outputs => outputs
  | bound + 1, excess, outputs =>
    match outputs with
    | [] => []
    | first :: rest =>
      if excess > 0 then
        if rest.isEmpty then [first + excess.toUInt64]
        else
          let sats :=
            if first < args.changeInitialSatoshis then
              min excess.toUInt64 (args.changeInitialSatoshis - first)
            else
              max 1 (excess.toUInt64 / 2)
          distribute bound (excess - sats.toInt64) ((first + sats) :: rest)
      else
        first :: rest

/-- Lower the output that asked for everything to what the funding allows. -/
def adjustMaxPossible (hasMax : Option Nat) (s : Selection) :
    Except WalletError (Selection × Option MaxPossibleSatoshisAdjustment) :=
  if feeExcess args s 0 0 < 0 then
    match hasMax with
    | none => .ok (s, none)
    | some idx =>
      let old := s.fixedOutputSatoshis.getD idx 0
      if old != maxPossibleSatoshis then
        .error (.internal "maxPossibleSatoshis output changed unexpectedly")
      else
        let adjusted := (old.toInt64 + feeExcess args s 0 0).toUInt64
        .ok ({ s with fixedOutputSatoshis := s.fixedOutputSatoshis.set idx adjusted },
          some ⟨idx, adjusted⟩)
  else
    .ok (s, none)

def totalNeeded (s : Selection) : Int :=
  ((sumU64 s.fixedOutputSatoshis).toInt64 +
    (feeTarget args s.allocated.length s.changeOutputs.length 0 0).toInt64).toInt

/-- The checks after the loops, and the result. -/
def finish (s : Selection) (adjustment : Option MaxPossibleSatoshisAdjustment) :
    Except WalletError GenerateChangeSdkResult :=
  let excess := feeExcess args s 0 0
  if excess < 0 then
    .error (.insufficientFunds s!"Insufficient funds: need {(-excess).toInt} more satoshis"
      (totalNeeded args s) (-excess).toInt)
  else if s.changeOutputs.isEmpty && excess > 0 then
    .error (.insufficientFunds "Insufficient funds: need change output" (totalNeeded args s)
      args.changeFirstSatoshis.toInt64.toInt)
  else
    let s := { s with changeOutputs := distribute args 130 excess s.changeOutputs }
    let fee := funding args s.allocated - sumU64 s.fixedOutputSatoshis - sumU64 s.changeOutputs
    let expected := feeTarget args s.allocated.length s.changeOutputs.length 0 0
    if fee != expected then
      .error (.internal
        s!"generateChangeSdk error: required fee error {expected.toNat} !== {fee.toNat}")
    else
      .ok
        { changeOutputs := s.changeOutputs
          allocatedChangeInputs := s.allocated
          size := computeSize args s.allocated.length s.changeOutputs.length 0 0
          fee
          satsPerKb := args.feeModel.value
          maxPossibleSatoshisAdjustment := adjustment }

/-- `generate_change_sdk_with_no_send`. -/
def generateChangeSdkWithNoSend (noSendChange available : List AvailableChange) :
    Except WalletError GenerateChangeSdkResult := do
  let hasMax ← validateParams args
  let pool := noSendChange.length + available.length
  let wanted := (args.targetNetCount.getD 0).toNat
  let s := wantOutputs args (wanted + 1)
    { storage := .withNoSendChange noSendChange available, allocated := [], changeOutputs := []
      fixedOutputSatoshis := args.fixedOutputs.map (·.satoshis) }
  let s := starve args pool (wanted + pool + 2) false s
  let (s, adjustment) ← adjustMaxPossible args hasMax s
  finish args s adjustment

end Fees

end WalletToolbox.Storage
