import Mathlib.Data.List.AList
import WalletToolbox.Permissions.Types

/-! # The permission cache

Answers are kept for some minutes (the manifest cache) and grants for some seconds more (the recent
grants), so that the user is not asked again.
Concurrent checks for one key share one request: the first caller resolves it, the others wait for
its result.
Times are milliseconds. A request stands for the pair of its `Notify` and its result cell, which
whoever waits holds on to after the map has dropped it. -/

namespace WalletToolbox.Permissions

/-- `MANIFEST_CACHE_TTL`. -/
def manifestCacheTtl : Nat := 300000

/-- `RECENT_GRANT_WINDOW`. -/
def recentGrantWindow : Nat := 15000

/-- `EPHEMERAL_CACHE_TTL`. -/
def ephemeralCacheTtl : Nat := 30000

structure CacheEntry where
  granted : Bool
  expiresAt : Nat
deriving DecidableEq, Repr

structure PermissionCache where
  manifestCache : AList fun _ : String => CacheEntry := ∅
  recentGrants : AList fun _ : String => Nat := ∅
  activeRequests : AList fun _ : String => Nat := ∅
  results : AList fun _ : Nat => Except String Bool := ∅
  nextRequest : Nat := 0

/-- `DeduplicateResult`. -/
inductive DeduplicateResult where
  | proceed
  | wait (request : Nat)
deriving DecidableEq, Repr

/-- `build_cache_key`. -/
def buildCacheKey (permissionType : PermissionType) (originator details : String) : String :=
  permissionType.debug ++ ":" ++ originator ++ ":" ++ details

namespace PermissionCache

variable (c : PermissionCache) (now : Nat) (key : String)

/-- `check_cache`; an expired entry is removed. -/
def checkCache : Option Bool × PermissionCache :=
  match c.manifestCache.lookup key with
  | some entry =>
    if now < entry.expiresAt then (some entry.granted, c)
    else (none, { c with manifestCache := c.manifestCache.erase key })
  | none => (none, c)

/-- `insert_cache`. -/
def insertCache (granted : Bool) (ttl : Nat) : PermissionCache :=
  { c with manifestCache := c.manifestCache.insert key { granted, expiresAt := now + ttl } }

/-- `is_recent_grant`. -/
def isRecentGrant : Bool :=
  match c.recentGrants.lookup key with
  | some whenGranted => now - whenGranted < recentGrantWindow
  | none => false

/-- `record_recent_grant`. -/
def recordRecentGrant : PermissionCache :=
  { c with recentGrants := c.recentGrants.insert key now }

/-- `try_deduplicate`. -/
def tryDeduplicate : DeduplicateResult × PermissionCache :=
  match c.activeRequests.lookup key with
  | some request => (.wait request, c)
  | none =>
    (.proceed,
      { c with activeRequests := c.activeRequests.insert key c.nextRequest
               nextRequest := c.nextRequest + 1 })

/-- The first half of `complete_request`: the request of a key leaves the map. -/
def takeRequest : Option (Nat × PermissionCache) :=
  (c.activeRequests.lookup key).map fun request =>
    (request, { c with activeRequests := c.activeRequests.erase key })

/-- The second half: its result is set. -/
def setResult (request : Nat) (result : Except String Bool) : PermissionCache :=
  { c with results := c.results.insert request result }

/-- `complete_request` when nobody waits. -/
def completeRequest (result : Except String Bool) : PermissionCache :=
  match c.takeRequest key with
  | some (request, c') => c'.setResult request result
  | none => c

@[simp] theorem recentGrants_checkCache :
    (c.checkCache now key).2.recentGrants = c.recentGrants := by
  unfold checkCache
  split
  · split
    · rfl
    · rfl
  · rfl

@[simp] theorem recentGrants_tryDeduplicate :
    (c.tryDeduplicate key).2.recentGrants = c.recentGrants := by
  unfold tryDeduplicate
  split
  · rfl
  · rfl

@[simp] theorem recentGrants_completeRequest (result : Except String Bool) :
    (c.completeRequest key result).recentGrants = c.recentGrants := by
  unfold completeRequest takeRequest
  cases c.activeRequests.lookup key with
  | none => rfl
  | some request => rfl

/-- A grant that is still remembered: in the manifest cache, or as a recent one. -/
def Remembers : Prop :=
  (∃ entry, c.manifestCache.lookup key = some entry ∧ entry.granted = true ∧
    now < entry.expiresAt) ∨
  ∃ whenGranted, c.recentGrants.lookup key = some whenGranted ∧ now - whenGranted < recentGrantWindow

end PermissionCache

end WalletToolbox.Permissions
