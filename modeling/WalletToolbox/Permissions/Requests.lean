import Mathlib.Logic.Function.Basic
import WalletToolbox.Lib.Runs
import WalletToolbox.Permissions.Ensure

/-! # Concurrent permission checks

Any number of calls run on one manager.
A check is cut at its awaits, so that another call may run between any two of them: at the locks of
the cache's maps, at the wallet below, at the user, and at the `Notify` of a request that another
call resolves.
A call that is dropped at an await is gone; what it holds is released. -/

namespace WalletToolbox.Permissions.Requests

open WalletToolbox.Lib

/-- Which of the two flows a check follows: `resolve_permission`, or
`ensure_spending_authorization`, which shares no request and reads no manifest cache. -/
inductive Flow where
  | resolve
  | spending (month originator : String) (amount : Nat)
deriving DecidableEq, Repr

/-- What is left to do once the answer is known. -/
inductive Write where
  | insertCache (granted : Bool) (ttl : Nat)
  | recordRecentGrant
  | completeRequest (result : Except String Bool)

/-- Where a check stands: what it does next. -/
inductive Phase where
  | checkCache
  | isRecentGrant
  | tryDeduplicate
  /-- It has been told to wait and has not called `notified` yet. -/
  | told (request : Nat)
  /-- It is registered on the `Notify`. -/
  | waiting (request : Nat)
  | woken (request : Nat)
  | lookup
  | callback
  | grant (expiry : Option Nat)
  | writes (todo : List Write) (outcome : Except SdkError Unit)
  /-- In `complete_request`: the request has left the map, whose lock is held. -/
  | notify (request : Nat) (result : Except String Bool) (todo : List Write)
      (outcome : Except SdkError Unit)
  | returned (outcome : Except SdkError Unit)

/-- A call on the manager: a check, or `clear_caches`. -/
inductive Call where
  | check (flow : Flow) (query : Query) (phase : Phase)
  | clearManifest
  | clearRecent
  | clearActive
  /-- The requests that the map held and that are not notified yet; the lock is held. -/
  | drain (requests : List Nat)
  | cleared

/-- A call that is registered for a request is woken. -/
def Call.wake (request : Nat) : Call → Call
  | .check flow query (.waiting r) =>
    .check flow query (if r = request then .woken r else .waiting r)
  | call => call

/-- The state of the manager: the clock, the wallet below and the cache, the calls, and the call that
holds the lock of the map of active requests across an await. -/
structure State where
  now : Nat := 0
  vault : Permissions.State := {}
  calls : Nat → Option Call := fun _ => none
  lock : Option Nat := none

namespace State

def setCall (s : State) (c : Nat) (call : Call) : State :=
  { s with calls := Function.update s.calls c (some call) }

def setCache (s : State) (cache : PermissionCache) : State :=
  { s with vault := { s.vault with cache } }

def setInner (s : State) (inner : Inner) : State :=
  { s with vault := { s.vault with inner } }

/-- `notify_waiters`: whoever is registered goes on. -/
def wake (s : State) (request : Nat) : State :=
  { s with calls := fun c => (s.calls c).map (Call.wake request) }

end State

/-! ## Checks -/

variable (kit : Kit)

/-- What the first caller does when the answer is yes, with the time to live of the entry. -/
def Flow.granted : Flow → List Write
  | .resolve => [.insertCache true manifestCacheTtl, .recordRecentGrant, .completeRequest (.ok true)]
  | .spending .. => [.recordRecentGrant]

/-- The same for an ephemeral grant. -/
def Flow.ephemeral : Flow → List Write
  | .resolve => [.insertCache true ephemeralCacheTtl, .completeRequest (.ok true)]
  | .spending .. => [.recordRecentGrant]

def Flow.denied : Flow → List Write
  | .resolve => [.insertCache false manifestCacheTtl, .completeRequest (.ok false)]
  | .spending .. => []

/-- When the lookup fails. -/
def Flow.failed (e : SdkError) : Flow → List Write
  | .resolve => [.completeRequest (.error ("WERR_INTERNAL: " ++ e.display))]
  | .spending .. => []

/-- Whether the tokens answer a check. -/
def Flow.found (a : Answers) (query : Query) (inner : Inner) : Flow → Bool
  | .resolve => query.tokens kit a.now inner ≠ []
  | .spending month originator amount =>
    let spentSoFar := if a.listActions.isSome then 0 else querySpentSince kit month originator inner
    (query.tokens kit a.now inner).any (·.covers spentSoFar amount)

/-- A check whose turn it is goes on to its next await. -/
def proceedCheck (a : Answers) (s : State) (c : Nat) (flow : Flow) (query : Query) : Phase → State
  | .checkCache =>
    match s.vault.cache.checkCache s.now query.cacheKey with
    | (some true, cache) => (s.setCache cache).setCall c (.check flow query (.returned (.ok ())))
    | (some false, cache) =>
      (s.setCache cache).setCall c
        (.check flow query (.returned (.error (.notImplemented query.denialMsg))))
    | (none, cache) => (s.setCache cache).setCall c (.check flow query .isRecentGrant)
  | .isRecentGrant =>
    if s.vault.cache.isRecentGrant s.now query.cacheKey then
      s.setCall c (.check flow query (.returned (.ok ())))
    else
      s.setCall c (.check flow query (match flow with
        | .resolve => .tryDeduplicate
        | .spending .. => .lookup))
  | .tryDeduplicate =>
    match s.vault.cache.tryDeduplicate query.cacheKey with
    | (.wait request, cache) => (s.setCache cache).setCall c (.check flow query (.told request))
    | (.proceed, cache) => (s.setCache cache).setCall c (.check flow query .lookup)
  | .told request => s.setCall c (.check flow query (.waiting request))
  | .waiting _ => s
  | .woken request =>
    s.setCall c (.check flow query (.returned (match s.vault.cache.results.lookup request with
      | some (.ok true) => .ok ()
      | some (.error e) => .error (.notImplemented e)
      | _ => .error (.notImplemented query.denialMsg))))
  | .lookup =>
    match a.listOutputs query.cacheKey with
    | some e => s.setCall c (.check flow query (.writes (flow.failed e) (.error e)))
    | none =>
      if flow.found kit a query s.vault.inner then
        s.setCall c (.check flow query (.writes flow.granted (.ok ())))
      else s.setCall c (.check flow query .callback)
  | .callback =>
    s.setCall c (.check flow query (match firePermissionCallback a query.request with
      | .grant expiry => .grant expiry
      | .ephemeralGrant => .writes flow.ephemeral (.ok ())
      | .deny reason => .writes flow.denied (.error (.notImplemented reason))))
  | .grant expiry =>
    (s.setInner (grantPermission kit a query.request expiry s.vault.inner)).setCall c
      (.check flow query (.writes flow.granted (.ok ())))
  | .writes [] outcome => s.setCall c (.check flow query (.returned outcome))
  | .writes (.insertCache granted ttl :: todo) outcome =>
    (s.setCache (s.vault.cache.insertCache s.now query.cacheKey granted ttl)).setCall c
      (.check flow query (.writes todo outcome))
  | .writes (.recordRecentGrant :: todo) outcome =>
    (s.setCache (s.vault.cache.recordRecentGrant s.now query.cacheKey)).setCall c
      (.check flow query (.writes todo outcome))
  | .writes (.completeRequest result :: todo) outcome =>
    match s.vault.cache.takeRequest query.cacheKey with
    | some (request, cache) =>
      { (s.setCache cache).setCall c (.check flow query (.notify request result todo outcome)) with
        lock := some c }
    | none => s.setCall c (.check flow query (.writes todo outcome))
  | .notify request result todo outcome =>
    { ((s.setCache (s.vault.cache.setResult request result)).setCall c
        (.check flow query (.writes todo outcome))).wake request with
      lock := none }
  | .returned _ => s

/-- Whether a phase needs the lock of the map of active requests. -/
def Phase.Locks : Phase → Prop
  | .tryDeduplicate => True
  | .writes (.completeRequest _ :: _) _ => True
  | _ => False

instance : ∀ phase : Phase, Decidable phase.Locks
  | .tryDeduplicate => isTrue trivial
  | .writes (.completeRequest _ :: _) _ => isTrue trivial
  | .writes [] _ | .writes (.insertCache .. :: _) _ | .writes (.recordRecentGrant :: _) _ => isFalse id
  | .checkCache | .isRecentGrant | .told _ | .waiting _ | .woken _ | .lookup | .callback | .grant _ =>
    isFalse id
  | .notify .. | .returned _ => isFalse id

/-! ## The system -/

/-- A turn of a call. -/
def proceed (a : Answers) (s : State) (c : Nat) : State :=
  match s.calls c with
  | some (.check flow query phase) => proceedCheck kit a s c flow query phase
  | some .clearManifest =>
    (s.setCache { s.vault.cache with manifestCache := ∅ }).setCall c .clearRecent
  | some .clearRecent =>
    (s.setCache { s.vault.cache with recentGrants := ∅ }).setCall c .clearActive
  | some .clearActive =>
    { (s.setCache { s.vault.cache with activeRequests := ∅ }).setCall c
        (.drain (s.vault.cache.activeRequests.entries.map (·.2))) with
      lock := some c }
  | some (.drain (request :: rest)) =>
    ((s.setCache (s.vault.cache.setResult request (.error "Cache cleared"))).setCall c
      (.drain rest)).wake request
  | some (.drain []) => { s.setCall c .cleared with lock := none }
  | _ => s

/-- Whether a call can go on: it is not over, not registered for a wakeup, and the lock that it needs
is free. -/
def Call.Ready (lock : Option Nat) : Call → Prop
  | .check _ _ (.returned _) => False
  | .check _ _ (.waiting _) => False
  | .check _ _ phase => phase.Locks → lock = none
  | .clearActive => lock = none
  | .cleared => False
  | _ => True

instance (lock : Option Nat) : ∀ call : Call, Decidable (call.Ready lock)
  | .check _ _ (.returned _) => isFalse id
  | .check _ _ (.waiting _) => isFalse id
  | .check _ _ .checkCache | .check _ _ .isRecentGrant | .check _ _ .tryDeduplicate
  | .check _ _ (.told _) | .check _ _ (.woken _) | .check _ _ .lookup | .check _ _ .callback
  | .check _ _ (.grant _) | .check _ _ (.writes ..) | .check _ _ (.notify ..) =>
    inferInstanceAs (Decidable (_ → _))
  | .clearActive => inferInstanceAs (Decidable (lock = none))
  | .cleared => isFalse id
  | .clearManifest | .clearRecent | .drain _ => isTrue trivial

def State.Ready (s : State) (c : Nat) : Prop :=
  match s.calls c with
  | some call => call.Ready s.lock
  | none => False

instance (s : State) (c : Nat) : Decidable (s.Ready c) :=
  decidable_of_iff (∃ call ∈ s.calls c, call.Ready s.lock) <| by
    rw [State.Ready]
    cases s.calls c <;> simp

inductive Action where
  /-- A check begins. -/
  | ensure (c : Nat) (flow : Flow) (query : Query)
  /-- `clear_caches` is called. -/
  | clearCaches (c : Nat)
  /-- A call takes its turn. -/
  | proceed (c : Nat) (a : Answers)
  /-- The future of a call is dropped. -/
  | cancel (c : Nat)
  /-- Time passes. -/
  | pass (milliseconds : Nat)
  | grantPermission (request : PermissionRequest) (expiry : Option Nat) (txid : String)
  | revokePermission (outpoint : Outpoint) (type : PermissionType)
  | revokeAllForOriginator (originator : String)

/-- The first phase of a check. -/
def Flow.start : Flow → Phase
  | .resolve => .checkCache
  | .spending .. => .isRecentGrant

def Action.next (s : State) : Action → State
  | .ensure c flow query => s.setCall c (.check flow query flow.start)
  | .clearCaches c => s.setCall c .clearManifest
  | .proceed c a => Requests.proceed kit a s c
  | .cancel c =>
    { s with calls := Function.update s.calls c none
             lock := if s.lock = some c then none else s.lock }
  | .pass milliseconds => { s with now := s.now + milliseconds }
  | .grantPermission request expiry txid =>
    s.setInner (createPermissionToken kit request expiry txid s.vault.inner)
  | .revokePermission outpoint type =>
    s.setInner (revokePermissionToken (basketForType type) outpoint s.vault.inner)
  | .revokeAllForOriginator originator =>
    s.setInner (Permissions.revokeAllForOriginator kit s.now originator s.vault.inner)

def Action.Enabled (s : State) : Action → Prop
  | .ensure c _ _ => s.calls c = none
  | .clearCaches c => s.calls c = none
  | .proceed c a => s.Ready c ∧ a.now = s.now
  | .cancel c => s.calls c ≠ none
  | _ => True

instance (s : State) : ∀ a : Action, Decidable (a.Enabled s)
  | .ensure .. | .clearCaches _ => inferInstanceAs (Decidable (_ = none))
  | .proceed .. => inferInstanceAs (Decidable (_ ∧ _))
  | .cancel _ => inferInstanceAs (Decidable (_ ≠ none))
  | .pass _ | .grantPermission .. | .revokePermission .. | .revokeAllForOriginator _ => isTrue trivial

/-- The concurrent calls on a manager. -/
def requests : System State Action where
  init := {}
  Enabled s a := a.Enabled s
  next a s := a.next kit s

instance (s : State) (a : Action) : Decidable ((requests kit).Enabled s a) :=
  inferInstanceAs (Decidable (a.Enabled s))

end WalletToolbox.Permissions.Requests
