import WalletToolbox.Lib.Runs

/-! # The wallet's settings and their cache

The settings are a JSON text in the one row of the settings table, and a manager keeps what it read or
wrote last for two minutes.
A `get` holds the lock of the cache across its storage read; a `set` takes it only after its storage
write.
Calls take turns at the points where they wait: for the lock and for the storage. -/

namespace WalletToolbox.SettingsManager

open WalletToolbox.Lib

structure TrustedCertifier where
  name : String
  description : String
  identityKey : String
  trust : UInt32
  iconUrl : Option String
  baseUrl : Option String
deriving DecidableEq

structure TrustSettings where
  trustLevel : UInt32
  trustedCertifiers : List TrustedCertifier
deriving DecidableEq

structure WalletTheme where
  mode : String
deriving DecidableEq

structure WalletSettings where
  trustSettings : TrustSettings
  theme : Option WalletTheme
  currency : Option String
  permissionMode : Option String
deriving DecidableEq

/-- `default_settings`. -/
def defaultSettings : WalletSettings :=
  { trustSettings :=
      { trustLevel := 2
        trustedCertifiers :=
          [{ name := "Metanet Trust Services"
             description := "Registry for protocols, baskets, and certificates types"
             identityKey := "03daf815fe38f83da0ad83b5bedc520aa488aef5cbc93a93c67a7fe60406cbffe8"
             trust := 4
             iconUrl := some "https://bsvblockchain.org/favicon.ico"
             baseUrl := none },
           { name := "SocialCert"
             description := "Certifies social media handles, phone numbers and emails"
             identityKey := "02cf6cdf466951d8dfc9e7c9367511d0007ed6fba35ed42d425cc412fd6cfd4a17"
             trust := 3
             iconUrl := some "https://socialcert.net/favicon.ico"
             baseUrl := none }] }
    theme := some { mode := "dark" }
    currency := none
    permissionMode := some "simple" }

/-- `CACHE_TTL`, in milliseconds. -/
def cacheTtl : Nat := 120000

structure CacheEntry where
  value : WalletSettings
  expiresAt : Nat

/-- `is_fresh`. -/
def CacheEntry.isFresh (e : CacheEntry) (now : Nat) : Bool :=
  now < e.expiresAt

/-- The JSON library. -/
structure Codec where
  /-- `serde_json::to_string`. -/
  encode : WalletSettings → Except String String
  /-- `serde_json::from_str`. -/
  decode : String → Except String WalletSettings

/-- A manager with its storage, and the calls that are under way. -/
structure State where
  now : Nat
  /-- The rows of the settings table by their `walletSettingsJson`. -/
  rows : List (Option String)
  cache : Option CacheEntry
  /-- The `get` that holds the lock, with the settings it has read. -/
  holder : Option (Option WalletSettings)
  /-- The `set` calls between the storage and the cache, by the numbers of their writes. -/
  stored : List (Nat × WalletSettings)
  /-- What `set` calls have written to the storage, in order. -/
  writes : List WalletSettings

/-- A manager before its first call. -/
def State.start (rows : List (Option String)) : State :=
  { now := 0, rows, cache := none, holder := none, stored := [], writes := [] }

/-- The settings that a storage read makes of the rows. -/
def readSettings (codec : Codec) (defaults : WalletSettings) (rows : List (Option String)) :
    WalletSettings :=
  match rows.head? with
  | some (some json) =>
    if json.isEmpty then defaults
    else
      match codec.decode json with
      | .ok settings => settings
      | .error _ => defaults
  | _ => defaults

/-- The cached settings while they are fresh. -/
def State.freshValue (s : State) : Option WalletSettings :=
  (s.cache.filter (·.isFresh s.now)).map (·.value)

def State.put (s : State) (settings : WalletSettings) : State :=
  { s with cache := some { value := settings, expiresAt := s.now + cacheTtl } }

/-- One turn of one call; `answers` tells whether a storage call succeeds. -/
inductive Op where
  | tick (duration : Nat)
  /-- `set` up to its storage write. -/
  | setStore (settings : WalletSettings) (answers : Bool)
  /-- The rest of the `set` with the given write: it takes the lock, fills the cache and returns. -/
  | setCache (write : Nat)
  /-- `get` takes the lock; fresh settings are returned at once. -/
  | getLock
  | getRead (answers : Bool)
  /-- `get` fills the cache, gives the lock back and returns. -/
  | getCache
  | invalidateCache

/-- The call can take the turn. -/
def Op.Enabled (s : State) : Op → Prop
  | .tick _ | .setStore _ _ => True
  | .setCache write => s.holder = none ∧ (s.stored.any (·.1 == write)) = true
  | .getLock | .invalidateCache => s.holder = none
  | .getRead _ => s.holder = some none
  | .getCache => (s.holder.any (·.isSome)) = true

/-- What a turn leaves. A storage call that fails changes nothing; a `get` returns its error. -/
def Op.next (codec : Codec) (defaults : WalletSettings) (s : State) : Op → State
  | .tick duration => { s with now := s.now + duration }
  | .setStore settings answers =>
    match codec.encode settings with
    | .error _ => s
    | .ok json =>
      if answers then
        { s with
          rows := s.rows.map fun _ => some json
          stored := s.stored ++ [(s.writes.length + 1, settings)]
          writes := s.writes ++ [settings] }
      else s
  | .setCache write =>
    match s.stored.find? (·.1 == write) with
    | some (_, settings) =>
      { s.put settings with stored := s.stored.filter (·.1 != write) }
    | none => s
  | .getLock => if s.freshValue.isSome then s else { s with holder := some none }
  | .getRead answers =>
    { s with holder := if answers then some (some (readSettings codec defaults s.rows)) else none }
  | .getCache =>
    match s.holder with
    | some (some settings) => { s.put settings with holder := none }
    | _ => s
  | .invalidateCache => { s with cache := none }

/-- The calls of one manager in any order of their turns. -/
def manager (codec : Codec) (defaults : WalletSettings) (rows : List (Option String)) :
    System State Op where
  init := .start rows
  Enabled := Op.Enabled
  next op s := op.next codec defaults s

/-- No call is under way. -/
def State.Quiet (s : State) : Prop :=
  s.holder = none ∧ s.stored = []

/-- What a `get` returns that runs alone: the fresh settings, or those it reads. -/
def State.answer (codec : Codec) (defaults : WalletSettings) (s : State) : WalletSettings :=
  s.freshValue.getD (readSettings codec defaults s.rows)

end WalletToolbox.SettingsManager
