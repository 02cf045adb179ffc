import WalletToolbox.Permissions.Cache
import WalletToolbox.Permissions.TokenCrud

/-! # Permission checks

A check of an application's request goes through the cache, the recent grants, the tokens and, when
none of these has an answer, the user.
Each of the `ensure` functions first settles what needs no answer, and then hands a query to
`resolve_permission`. -/

namespace WalletToolbox.Permissions

/-- `WalletPermissionsManager`: what it is configured with. -/
structure Manager where
  adminOriginator : String
  config : PermissionsManagerConfig := {}
  permissionModules : List String := []

/-- `WalletPermissionsManager::new`. -/
def Manager.new (kit : Kit) (adminOriginator : String) (config : PermissionsManagerConfig) :
    Manager where
  adminOriginator :=
    let normalizedAdmin := normalizeOriginator kit.lowercase adminOriginator
    if normalizedAdmin = "" then adminOriginator else normalizedAdmin
  config := config

def Manager.isAdmin (kit : Kit) (mgr : Manager) (originator : String) : Bool :=
  isAdminOriginator kit.lowercase originator mgr.adminOriginator

def exampleManager : Manager where
  adminOriginator := "admin.example"

/-- What changes: the wallet below and the cache. -/
structure State where
  inner : Inner := {}
  cache : PermissionCache := {}

/-- What the outside answers while a call is served: the time (in milliseconds) and the month, the
failures of the wallet below, the transaction id of a new token, and the user's word (`none` when no
callback is registered, an error when it fails). -/
structure Answers where
  now : Nat
  month : String
  listOutputs : String → Option SdkError
  listActions : Option SdkError
  grantToken : Except SdkError String
  metadata : Option SdkError
  callback : Option (PermissionRequest → Except String PermissionResponse)

/-- The wallet answers, and no callback is registered. -/
def noCallback : Answers where
  now := 0
  month := "2026-01"
  listOutputs _ := none
  listActions := none
  grantToken := .error (.inner "unused")
  metadata := none
  callback := none

/-- `fire_permission_callback`: an error counts as a denial. -/
def firePermissionCallback (a : Answers) (request : PermissionRequest) : PermissionResponse :=
  match a.callback with
  | none => .deny "No permission callback registered"
  | some callback =>
    match callback request with
    | .ok response => response
    | .error e => .deny ("Callback error: " ++ e)

/-- A step of serving a call; `none` when it waits for ever. -/
abbrev Check := State → Option (Except SdkError Unit × State)

/-- One step after another, up to the first error. -/
def Check.andThen (p q : Check) : Check := fun s =>
  match p s with
  | some (.ok (), s') => q s'
  | r => r

/-- The steps of a list. -/
def Check.all : List Check → Check
  | [] => fun s => some (.ok (), s)
  | p :: rest => p.andThen (Check.all rest)

def Check.pass : Check := fun s => some (.ok (), s)

def Check.refuse (e : SdkError) : Check := fun s => some (.error e, s)

/-! ## The core resolution flow -/

/-- What `resolve_permission` is called with. -/
structure Query where
  cacheKey : String
  permissionType : PermissionType
  originator : String
  filters : TokenLookupFilters
  request : PermissionRequest
  denialMsg : String
deriving DecidableEq, Repr

/-- The tokens that answer a query. -/
def Query.tokens (kit : Kit) (now : Nat) (q : Query) (inner : Inner) : List PermissionToken :=
  lookupPermissionTokens kit now q.permissionType q.originator q.filters inner

/-- `grant_permission`; a failure is only logged. -/
def grantPermission (kit : Kit) (a : Answers) (request : PermissionRequest) (expiry : Option Nat)
    (inner : Inner) : Inner :=
  match a.grantToken with
  | .ok txid => createPermissionToken kit request expiry txid inner
  | .error _ => inner

/-- The end of `resolve_permission`: the callback and what its answer leaves. -/
def askUser (kit : Kit) (a : Answers) (q : Query) : Check := fun s =>
  match firePermissionCallback a q.request with
  | .grant expiry =>
    let cache := (s.cache.insertCache a.now q.cacheKey true manifestCacheTtl).recordRecentGrant a.now
      q.cacheKey
    some (.ok (), { inner := grantPermission kit a q.request expiry s.inner
                    cache := cache.completeRequest q.cacheKey (.ok true) })
  | .ephemeralGrant =>
    let cache := s.cache.insertCache a.now q.cacheKey true ephemeralCacheTtl
    some (.ok (), { s with cache := cache.completeRequest q.cacheKey (.ok true) })
  | .deny reason =>
    let cache := s.cache.insertCache a.now q.cacheKey false manifestCacheTtl
    some (.error (.notImplemented reason),
      { s with cache := cache.completeRequest q.cacheKey (.ok false) })

/-- The first caller for a key: the tokens, then the callback. -/
def lookupOrAsk (kit : Kit) (a : Answers) (q : Query) : Check := fun s =>
  match a.listOutputs q.cacheKey with
  | some e =>
    some (.error e, { s with
      cache := s.cache.completeRequest q.cacheKey (.error ("WERR_INTERNAL: " ++ e.display)) })
  | none =>
    if q.tokens kit a.now s.inner ≠ [] then
      let cache := (s.cache.insertCache a.now q.cacheKey true manifestCacheTtl).recordRecentGrant
        a.now q.cacheKey
      some (.ok (), { s with cache := cache.completeRequest q.cacheKey (.ok true) })
    else askUser kit a q s

/-- `resolve_permission` of a caller that is alone. -/
def resolvePermission (kit : Kit) (a : Answers) (q : Query) : Check := fun s =>
  match s.cache.checkCache a.now q.cacheKey with
  | (some true, cache) => some (.ok (), { s with cache })
  | (some false, cache) => some (.error (.notImplemented q.denialMsg), { s with cache })
  | (none, cache) =>
    if cache.isRecentGrant a.now q.cacheKey then some (.ok (), { s with cache })
    else
      match cache.tryDeduplicate q.cacheKey with
      | (.wait _, _) => none
      | (.proceed, cache) => lookupOrAsk kit a q { s with cache }

/-! ## The checks -/

/-- What an `ensure` function makes of its arguments. -/
inductive Decision where
  | pass
  | refuse (e : SdkError)
  | resolve (query : Query)
deriving DecidableEq, Repr

def Decision.check (kit : Kit) (a : Answers) : Decision → Check
  | .pass => Check.pass
  | .refuse e => Check.refuse e
  | .resolve query => resolvePermission kit a query

/-- `ensure_protocol_permission` up to `resolve_permission`. -/
def protocolDecision (kit : Kit) (mgr : Manager) (originator protocol : String)
    (securityLevel : Nat) (counterparty : String) (privileged : Bool) (usage : ProtocolUsage) :
    Decision :=
  let normalized := normalizeOriginator kit.lowercase originator
  let privileged := privileged && mgr.config.differentiatePrivilegedOperations
  if mgr.isAdmin kit normalized then .pass
  else if securityLevel = 0 then .pass
  else
    let effectiveCounterparty := if securityLevel = 1 then "" else counterparty
    if isAdminProtocol protocol then
      .refuse (.notImplemented ("Protocol \"" ++ protocol ++ "\" is admin-only."))
    else if !mgr.config.requiresProtocolCheck usage then .pass
    else if (detectPModuleScheme protocol).any (mgr.permissionModules.contains ·) then .pass
    else .resolve
      { cacheKey := buildCacheKey .protocolPermission normalized
          (protocol ++ ":" ++ toString securityLevel ++ ":" ++ effectiveCounterparty ++ ":" ++
            toString privileged)
        permissionType := .protocolPermission
        originator := normalized
        filters :=
          { protocol := some protocol
            securityLevel := some securityLevel
            counterparty := if securityLevel = 2 then some effectiveCounterparty else none
            privileged := some privileged }
        request :=
          { permissionType := .protocolPermission
            originator := normalized
            privileged := some privileged
            protocol := some protocol
            securityLevel := some securityLevel
            counterparty := some effectiveCounterparty
            description :=
              some ("Protocol permission for \"" ++ protocol ++ "\" (" ++ usage.text ++ ")") }
        denialMsg := "Permission denied: protocol permission required for \"" ++ protocol ++
          "\" (originator: " ++ normalized ++ ")" }

def ensureProtocolPermission (kit : Kit) (mgr : Manager) (a : Answers) (originator protocol : String)
    (securityLevel : Nat) (counterparty : String) (privileged : Bool) (usage : ProtocolUsage) :
    Check :=
  (protocolDecision kit mgr originator protocol securityLevel counterparty privileged usage).check
    kit a

/-- `ensure_basket_access` up to `resolve_permission`. -/
def basketDecision (kit : Kit) (mgr : Manager) (originator basketName : String)
    (usage : BasketUsage) : Decision :=
  let normalized := normalizeOriginator kit.lowercase originator
  if mgr.isAdmin kit normalized then .pass
  else if isAdminBasket basketName then
    .refuse (.notImplemented ("Basket \"" ++ basketName ++ "\" is admin-only."))
  else if !mgr.config.requiresBasketCheck usage then .pass
  else .resolve
    { cacheKey := buildCacheKey .basketAccess normalized basketName
      permissionType := .basketAccess
      originator := normalized
      filters := { basketName := some basketName }
      request :=
        { permissionType := .basketAccess
          originator := normalized
          basketName := some basketName
          description := some ("Basket access for \"" ++ basketName ++ "\" (" ++ usage.text ++ ")") }
      denialMsg := "Permission denied: basket access required for \"" ++ basketName ++
        "\" (originator: " ++ normalized ++ ")" }

def ensureBasketAccess (kit : Kit) (mgr : Manager) (a : Answers) (originator basketName : String)
    (usage : BasketUsage) : Check :=
  (basketDecision kit mgr originator basketName usage).check kit a

/-- `ensure_certificate_access` up to `resolve_permission`. -/
def certificateDecision (kit : Kit) (mgr : Manager) (originator certType : String)
    (certFields : Option (List String)) (verifier : Option String) (privileged : Bool)
    (usage : CertificateUsage) : Decision :=
  let normalized := normalizeOriginator kit.lowercase originator
  let privileged := privileged && mgr.config.differentiatePrivilegedOperations
  if mgr.isAdmin kit normalized then .pass
  else if !mgr.config.requiresCertificateCheck usage then .pass
  else .resolve
    { cacheKey := buildCacheKey .certificateAccess normalized
        (certType ++ ":" ++ verifier.getD "" ++ ":" ++ toString privileged)
      permissionType := .certificateAccess
      originator := normalized
      filters := { certType := some certType, verifier, privileged := some privileged }
      request :=
        { permissionType := .certificateAccess
          originator := normalized
          privileged := some privileged
          certType := some certType
          certFields
          verifier
          description :=
            some ("Certificate access for type \"" ++ certType ++ "\" (" ++ usage.text ++ ")") }
      denialMsg := "Permission denied: certificate access required for type \"" ++ certType ++
        "\" (originator: " ++ normalized ++ ")" }

def ensureCertificateAccess (kit : Kit) (mgr : Manager) (a : Answers) (originator certType : String)
    (certFields : Option (List String)) (verifier : Option String) (privileged : Bool)
    (usage : CertificateUsage) : Check :=
  (certificateDecision kit mgr originator certType certFields verifier privileged usage).check kit a

/-- `ensure_label_access`, for listing. -/
def ensureLabelAccess (kit : Kit) (mgr : Manager) (a : Answers) (originator : String)
    (labels : List String) : Check :=
  let normalized := normalizeOriginator kit.lowercase originator
  if mgr.isAdmin kit normalized then Check.pass
  else if !mgr.config.requireLabelAccessForListing then Check.pass
  else Check.all <| labels.map fun label =>
    if isAdminLabel label then
      Check.refuse (.notImplemented ("Label \"" ++ label ++ "\" is admin-only."))
    else ensureProtocolPermission kit mgr a originator ("action label " ++ label) 1 "self" false
      .generic

/-! ## Spending -/

def spendingKey (normalized : String) (amount : Nat) : String :=
  buildCacheKey .spendingAuthorization normalized ("amount:" ++ toString amount)

def spendingRequest (normalized : String) (amount : Nat) : PermissionRequest where
  permissionType := .spendingAuthorization
  originator := normalized
  amount := some amount
  description := some ("Spending authorization for " ++ toString amount ++ " satoshis")

/-- The tokens that a spending check looks at. -/
def spendingTokens (kit : Kit) (now : Nat) (normalized : String) (inner : Inner) :
    List PermissionToken :=
  lookupPermissionTokens kit now .spendingAuthorization normalized {} inner

/-- Whether a token covers an amount on top of what was spent. -/
def PermissionToken.covers (spentSoFar amount : Nat) (token : PermissionToken) : Bool :=
  match token.authorizedAmount with
  | some authorizedAmount => min (spentSoFar + amount) (2 ^ 64 - 1) ≤ authorizedAmount
  | none => false

/-- `ensure_spending_authorization`. -/
def ensureSpendingAuthorization (kit : Kit) (mgr : Manager) (a : Answers) (originator : String)
    (amount : Nat) : Check := fun s =>
  let normalized := normalizeOriginator kit.lowercase originator
  let key := spendingKey normalized amount
  if mgr.isAdmin kit normalized then some (.ok (), s)
  else if !mgr.config.requireSpendingAuthorization then some (.ok (), s)
  else if s.cache.isRecentGrant a.now key then some (.ok (), s)
  else
    match a.listOutputs key with
    | some e => some (.error e, s)
    | none =>
      -- A failure of the query reads as nothing spent.
      let spentSoFar := if a.listActions.isSome then 0
        else querySpentSince kit a.month originator s.inner
      if (spendingTokens kit a.now normalized s.inner).any (·.covers spentSoFar amount) then
        some (.ok (), { s with cache := s.cache.recordRecentGrant a.now key })
      else
        match firePermissionCallback a (spendingRequest normalized amount) with
        | .grant expiry =>
          some (.ok (), { inner := grantPermission kit a (spendingRequest normalized amount) expiry
                            s.inner
                          cache := s.cache.recordRecentGrant a.now key })
        | .ephemeralGrant =>
          some (.ok (), { s with cache := s.cache.recordRecentGrant a.now key })
        | .deny reason => some (.error (.notImplemented reason), s)

end WalletToolbox.Permissions
