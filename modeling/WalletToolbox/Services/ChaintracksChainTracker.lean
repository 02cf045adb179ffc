import Mathlib.Data.List.AList
import WalletToolbox.Lib.Runs
import WalletToolbox.Services

/-! # ChaintracksChainTracker

Merkle roots are checked against the headers of a Chaintracks backend.
The clones of one tracker share a cache of the roots that they take for settled.
A call of `is_valid_root_for_height` is cut at its awaits: the cache, the header, the tip height and
the cache again; the backend may move between any two of them. -/

namespace WalletToolbox.ChainTracker

open WalletToolbox.Lib

/-- `REORG_SAFE_DEPTH`: the newest blocks, whose roots are read on every call. -/
def reorgSafeDepth : Nat := 400

/-- `ROOT_CACHE_CAPACITY`. -/
def rootCacheCapacity : Nat := 4096

/-! ## The cache -/

/-- `RootCache`: the roots by height, and the heights in the order they came. -/
structure RootCache where
  roots : AList fun _ : Nat => String := ∅
  insertionOrder : List Nat := []

namespace RootCache

def get (c : RootCache) (height : Nat) : Option String :=
  c.roots.lookup height

/-- The eviction loop of `insert`. A full map whose order is empty is not changed by another turn,
so that the loop does not end: `none`. -/
def evict (roots : AList fun _ : Nat => String) : List Nat → Option RootCache
  | [] => if rootCacheCapacity ≤ roots.entries.length then none else some ⟨roots, []⟩
  | oldest :: rest =>
    if rootCacheCapacity ≤ roots.entries.length then evict (roots.erase oldest) rest
    else some ⟨roots, oldest :: rest⟩

/-- `RootCache::insert`; `none` when it does not return. -/
def insert (c : RootCache) (height : Nat) (merkleRoot : String) : Option RootCache :=
  if height ∈ c.roots then
    some { c with roots := c.roots.insert height merkleRoot }
  else
    (evict c.roots c.insertionOrder).map fun kept =>
      { roots := kept.roots.insert height merkleRoot
        insertionOrder := kept.insertionOrder ++ [height] }

end RootCache

/-! ## The backend -/

/-- The active chain of the backend, from its first header to its tip. -/
abbrev Chain := List BlockHeader

/-- `find_header_for_height`. -/
def Chain.findHeaderForHeight (chain : Chain) (height : Nat) : Option BlockHeader :=
  chain[height]?

/-- `current_height`: the height of the tip, zero without one. -/
def Chain.currentHeight (c : Chain) : Nat := c.length - 1

/-- The newest `depth` headers make room for a branch; growth has depth zero. -/
def Chain.reorganize (c : Chain) (depth : Nat) (branch : List BlockHeader) : Chain :=
  c.take (c.length - depth) ++ branch

/-- The comparison of a root with the one that the backend holds for a height. -/
def Chain.rootMatches (c : Chain) (root : String) (height : Nat) : Bool :=
  match c.findHeaderForHeight height with
  | none => false
  | some header => header.merkleRoot == root

/-! ## Calls -/

/-- Where a call of `is_valid_root_for_height` stands: what it awaits next. -/
inductive Phase where
  | lookup
  | fetch
  | tip (header : BlockHeader)
  | store (header : BlockHeader)

/-- A call of some clone. `during` collects the chains that the backend has held since it began. -/
structure Call where
  root : String
  height : Nat
  phase : Phase
  during : List Chain

/-- A call that has returned. -/
structure Returned where
  root : String
  height : Nat
  during : List Chain
  result : Except String Bool

def Call.return (c : Call) (result : Except String Bool) : Returned where
  root := c.root
  height := c.height
  during := c.during
  result := result

structure State where
  chain : Chain
  cache : RootCache := {}
  calls : List Call := []
  returned : List Returned := []

def State.continue (s : State) (i : Nat) (c : Call) (phase : Phase) : State :=
  { s with calls := s.calls.set i { c with phase := phase } }

def State.finish (s : State) (i : Nat) (c : Call) (result : Except String Bool) : State :=
  { s with calls := s.calls.eraseIdx i, returned := s.returned ++ [c.return result] }

/-- Whether a root at this height counts as settled. -/
def settled (height tipHeight : Nat) : Bool := decide (height < tipHeight - reorgSafeDepth)

/-- A call goes on to its next await; `fault` is an error of the backend read that it waits for. -/
def State.proceed (s : State) (i : Nat) (c : Call) (fault : Option String) : State :=
  match c.phase with
  | .lookup =>
    match s.cache.get c.height with
    | some cachedRoot => s.finish i c (.ok (cachedRoot == c.root))
    | none => s.continue i c .fetch
  | .fetch =>
    match fault with
    | some e => s.finish i c (.error ("ChainTracker error: " ++ e))
    | none =>
      match s.chain.findHeaderForHeight c.height with
      | none => s.finish i c (.ok false)
      | some header => s.continue i c (.tip header)
  | .tip header =>
    match fault with
    | some e => s.finish i c (.error ("ChainTracker error: " ++ e))
    | none =>
      if settled c.height s.chain.currentHeight then s.continue i c (.store header)
      else s.finish i c (.ok (header.merkleRoot == c.root))
  | .store header =>
    match s.cache.insert c.height header.merkleRoot with
    -- The eviction loop spins and the call stays where it is.
    | none => s
    | some cache => { s with cache }.finish i c (.ok (header.merkleRoot == c.root))

inductive Action where
  /-- Some clone is asked for a root. -/
  | begin (root : String) (height : Nat)
  /-- A call in flight goes on. -/
  | proceed (i : Nat) (fault : Option String)
  /-- The backend's chain grows or reorganizes. -/
  | reorganize (depth : Nat) (branch : List BlockHeader)

def Action.next : Action → State → State
  | .begin root height, s =>
    { s with calls := s.calls ++ [{ root, height, phase := .lookup, during := [s.chain] }] }
  | .proceed i fault, s =>
    match s.calls[i]? with
    | some c => s.proceed i c fault
    | none => s
  | .reorganize depth branch, s =>
    { s with
      chain := s.chain.reorganize depth branch
      calls := s.calls.map fun c =>
        { c with during := c.during ++ [s.chain.reorganize depth branch] } }

/-- Reorganizations reach no deeper than the window that is never cached. -/
def Action.Enabled : State → Action → Prop
  | _, .reorganize depth _ => depth ≤ reorgSafeDepth
  | _, _ => True

instance : ∀ (s : State) (a : Action), Decidable (a.Enabled s)
  | _, .reorganize depth _ => inferInstanceAs (Decidable (depth ≤ reorgSafeDepth))
  | _, .begin _ _ => isTrue trivial
  | _, .proceed _ _ => isTrue trivial

/-- The clones of one new tracker over a backend. -/
def tracker (chain : Chain) : System State Action where
  init := { chain }
  Enabled := Action.Enabled
  next := Action.next

instance (chain : Chain) (s : State) (a : Action) : Decidable ((tracker chain).Enabled s a) :=
  inferInstanceAs (Decidable (a.Enabled s))

end WalletToolbox.ChainTracker
