import Mathlib.Algebra.GroupWithZero.Nat
import Mathlib.Algebra.Ring.Int.Defs
import WalletToolbox.Storage.Tables

/-! # Permissions: types, configuration, originators

The permissions manager stands between applications and the wallet.
An application is known by its originator, the wallet's own frontend by the admin originator.
What the admin has granted is kept as tokens, outputs in four baskets whose names no application may
use. -/

namespace WalletToolbox.Permissions

open WalletToolbox.Storage (Bytes)

/-- The errors of the wallet interface: those that the manager makes, and those of the wallet below
it, of which only the text matters. -/
inductive SdkError where
  | notImplemented (message : String)
  | invalidParameter (message : String)
  | inner (display : String)
deriving DecidableEq, Repr

/-- How an error is printed; those of a lookup come from the wallet below. -/
def SdkError.display : SdkError → String
  | .notImplemented message => message
  | .invalidParameter message => message
  | .inner display => display

inductive PermissionType where
  | protocolPermission
  | basketAccess
  | certificateAccess
  | spendingAuthorization
deriving DecidableEq, Repr

/-- The name that the debug format prints. -/
def PermissionType.debug : PermissionType → String
  | protocolPermission => "ProtocolPermission"
  | basketAccess => "BasketAccess"
  | certificateAccess => "CertificateAccess"
  | spendingAuthorization => "SpendingAuthorization"

def basketDpacp : String := "admin protocol-permission"
def basketDbap : String := "admin basket-access"
def basketDcap : String := "admin certificate-access"
def basketDsap : String := "admin spending-authorization"

/-- `basket_for_type`. -/
def basketForType : PermissionType → String
  | .protocolPermission => basketDpacp
  | .basketAccess => basketDbap
  | .certificateAccess => basketDcap
  | .spendingAuthorization => basketDsap

/-- What a lookup returns of a token. -/
structure PermissionToken where
  txid : String
  outputIndex : Nat
  outputScript : Bytes
  satoshis : Nat
  originator : String
  rawOriginator : Option String
  expiry : Option Nat
  privileged : Option Bool := none
  protocol : Option String := none
  securityLevel : Option Nat := none
  counterparty : Option String := none
  basketName : Option String := none
  certType : Option String := none
  certFields : Option String := none
  verifier : Option String := none
  authorizedAmount : Option Nat := none
deriving DecidableEq, Repr

/-- What the user is asked. -/
structure PermissionRequest where
  permissionType : PermissionType
  originator : String
  privileged : Option Bool := none
  protocol : Option String := none
  securityLevel : Option Nat := none
  counterparty : Option String := none
  basketName : Option String := none
  certType : Option String := none
  certFields : Option (List String) := none
  verifier : Option String := none
  amount : Option Nat := none
  description : Option String := none
deriving DecidableEq, Repr

/-- What the user answers. -/
inductive PermissionResponse where
  | grant (expiry : Option Nat)
  | deny (reason : String)
  | ephemeralGrant
deriving DecidableEq, Repr

/-! ## Configuration -/

/-- What a protocol is used for. -/
inductive ProtocolUsage where
  | signing
  | encrypting
  | hmac
  | publicKey
  | signatureVerification
  | hmacVerification
  | decryption
  | keyLinkage
  | generic
deriving DecidableEq, Repr

def ProtocolUsage.text : ProtocolUsage → String
  | signing => "signing"
  | encrypting => "encrypting"
  | hmac => "hmac"
  | publicKey => "publicKey"
  | signatureVerification => "signatureVerification"
  | hmacVerification => "hmacVerification"
  | decryption => "decryption"
  | keyLinkage => "keyLinkage"
  | generic => "generic"

inductive BasketUsage where
  | insertion
  | listing
  | relinquishing
deriving DecidableEq, Repr

def BasketUsage.text : BasketUsage → String
  | insertion => "insertion"
  | listing => "listing"
  | relinquishing => "relinquishing"

inductive CertificateUsage where
  | disclosure
  | discovery
deriving DecidableEq, Repr

def CertificateUsage.text : CertificateUsage → String
  | disclosure => "disclosure"
  | discovery => "discovery"

structure PermissionsManagerConfig where
  requireProtocolPermissionForSigning : Bool := true
  requireProtocolPermissionForEncrypting : Bool := true
  requireProtocolPermissionForHmac : Bool := true
  requireProtocolPermissionForKeyLinkage : Bool := true
  requireProtocolPermissionForPublicKey : Bool := true
  requireProtocolPermissionForSignatureVerification : Bool := true
  requireProtocolPermissionForHmacVerification : Bool := true
  requireProtocolPermissionForDecryption : Bool := true
  requireBasketAccessForInsertion : Bool := true
  requireBasketAccessForListing : Bool := true
  requireBasketAccessForRelinquishing : Bool := true
  requireCertificateAccessForAcquisition : Bool := true
  requireCertificateAccessForListing : Bool := true
  requireCertificateAccessForRelinquishing : Bool := true
  requireCertificateAccessForDiscovery : Bool := true
  requireSpendingAuthorization : Bool := true
  requireLabelAccessForListing : Bool := true
  encryptWalletMetadata : Bool := true
  differentiatePrivilegedOperations : Bool := true

namespace PermissionsManagerConfig

/-- `config_requires_protocol_check`. -/
def requiresProtocolCheck (config : PermissionsManagerConfig) : ProtocolUsage → Bool
  | .signing => config.requireProtocolPermissionForSigning
  | .encrypting => config.requireProtocolPermissionForEncrypting
  | .hmac => config.requireProtocolPermissionForHmac
  | .publicKey => config.requireProtocolPermissionForPublicKey
  | .signatureVerification => config.requireProtocolPermissionForSignatureVerification
  | .hmacVerification => config.requireProtocolPermissionForHmacVerification
  | .decryption => config.requireProtocolPermissionForDecryption
  | .keyLinkage => config.requireProtocolPermissionForKeyLinkage
  | .generic => true

def requiresBasketCheck (config : PermissionsManagerConfig) : BasketUsage → Bool
  | .insertion => config.requireBasketAccessForInsertion
  | .listing => config.requireBasketAccessForListing
  | .relinquishing => config.requireBasketAccessForRelinquishing

def requiresCertificateCheck (config : PermissionsManagerConfig) : CertificateUsage → Bool
  | .disclosure => true
  | .discovery => config.requireCertificateAccessForDiscovery

theorem requiresProtocolCheck_default (usage : ProtocolUsage) :
    ({} : PermissionsManagerConfig).requiresProtocolCheck usage = true := by
  cases usage <;> rfl

theorem requiresBasketCheck_default (usage : BasketUsage) :
    ({} : PermissionsManagerConfig).requiresBasketCheck usage = true := by
  cases usage <;> rfl

theorem requiresCertificateCheck_default (usage : CertificateUsage) :
    ({} : PermissionsManagerConfig).requiresCertificateCheck usage = true := by
  cases usage <;> rfl

end PermissionsManagerConfig

/-! ## Text -/

/-- The white space of `str::trim`. -/
def isWhitespace (c : Char) : Bool :=
  (0x09 ≤ c.toNat && c.toNat ≤ 0x0d) || (0x2000 ≤ c.toNat && c.toNat ≤ 0x200a) ||
    [0x20, 0x85, 0xa0, 0x1680, 0x2028, 0x2029, 0x202f, 0x205f, 0x3000].contains c.toNat

def trimStart (s : List Char) : List Char := s.dropWhile isWhitespace

def trim (s : List Char) : List Char := (trimStart (trimStart s).reverse).reverse

/-- The parts before and after the first occurrence of a character. -/
def splitFirst (c : Char) (s : List Char) : Option (List Char × List Char) :=
  if c ∈ s then some (s.takeWhile (· ≠ c), (s.dropWhile (· ≠ c)).tail) else none

/-- The parts before and after its last occurrence. -/
def splitLast (c : Char) (s : List Char) : Option (List Char × List Char) :=
  (splitFirst c s.reverse).map fun (after, before) => (before.reverse, after.reverse)

/-- The parts before and after the first occurrence of a text. -/
def splitAt (pattern : List Char) : List Char → Option (List Char × List Char)
  | [] => if pattern = [] then some ([], []) else none
  | c :: rest =>
    if pattern.isPrefixOf (c :: rest) then some ([], (c :: rest).drop pattern.length)
    else (splitAt pattern rest).map fun (before, after) => (c :: before, after)

def startsWith (s pattern : String) : Bool := pattern.toList.isPrefixOf s.toList

def isAsciiDigit (c : Char) : Bool := '0' ≤ c && c ≤ '9'

/-- `str::parse` at an unsigned type of a width: an optional plus sign and decimal digits. -/
def parseUnsigned (bits : Nat) (s : List Char) : Option Nat :=
  let digits := if s.head? = some '+' then s.tail else s
  if digits = [] ∨ digits.any (fun c => !isAsciiDigit c) then none
  else
    let n := digits.foldl (fun n c => 10 * n + (c.toNat - '0'.toNat)) 0
    if n < 2 ^ bits then some n else none

/-! ## Originators -/

/-- `parse_url_parts`: scheme, host name and port. -/
def parseUrlParts (lowercase : String → String) (url : List Char) :
    Option (String × List Char × Option (List Char)) :=
  match splitAt "://".toList url with
  | none => none
  | some (scheme, rest) =>
    let scheme := lowercase (String.ofList scheme)
    let authority := ((rest.takeWhile (· ≠ '/')).takeWhile (· ≠ '?')).takeWhile (· ≠ '#')
    if authority = [] then none
    else
      let hostPort := ((splitLast '@' authority).map Prod.snd).getD authority
      if hostPort.head? = some '[' then
        (splitFirst ']' hostPort).map fun (hostname, after) =>
          (scheme, hostname.tail, match after with
            | ':' :: port => if port = [] then none else some port
            | _ => none)
      else
        match splitLast ':' hostPort with
        | some (hostname, port) =>
          if port ≠ [] ∧ port.all isAsciiDigit then
            if hostname = [] then none else some (scheme, hostname, some port)
          else some (scheme, hostPort, none)
        | none => some (scheme, hostPort, none)

/-- `normalize_originator`. The lower case of a text is a table of the standard library. -/
def normalizeOriginator (lowercase : String → String) (originator : String) : String :=
  let trimmed := trim originator.toList
  if trimmed = [] then ""
  else
    let lower := lowercase (String.ofList trimmed)
    let candidate :=
      if startsWith lower "http://" || startsWith lower "https://" then trimmed
      else "https://".toList ++ trimmed
    match parseUrlParts lowercase candidate with
    | some (scheme, hostname, port) =>
      let hostname := lowercase (String.ofList hostname)
      let baseHost := if ':' ∈ hostname.toList then "[" ++ hostname ++ "]" else hostname
      let defaultPort :=
        if scheme = "http" then some "80" else if scheme = "https" then some "443" else none
      match port with
      | some p =>
        if defaultPort = some (String.ofList p) then baseHost
        else baseHost ++ ":" ++ String.ofList p
      | none => baseHost
    | none => lower

/-- `build_originator_lookup_values`. -/
def buildOriginatorLookupValues (lowercase : String → String) (originator : String) : List String :=
  let trimmed := String.ofList (trim originator.toList)
  if trimmed = "" then []
  else
    let normalized := normalizeOriginator lowercase trimmed
    if normalized ≠ trimmed then [trimmed, normalized] else [trimmed]

/-- `is_admin_originator`. -/
def isAdminOriginator (lowercase : String → String) (originator adminOriginator : String) : Bool :=
  let normOrig := normalizeOriginator lowercase originator
  let normAdmin := normalizeOriginator lowercase adminOriginator
  normOrig ≠ "" ∧ normAdmin ≠ "" ∧ normOrig = normAdmin

/-- `detect_p_module_scheme`. -/
def detectPModuleScheme (protocol : String) : Option String :=
  if startsWith protocol "p " then
    let rest := protocol.toList.drop 2
    if trimStart rest = [] then none else some (String.ofList rest)
  else none

def isAdminProtocol (protocol : String) : Bool := startsWith protocol "admin"

/-- `is_admin_basket`. -/
def isAdminBasket (basket : String) : Bool := basket == "default" || startsWith basket "admin"

def isAdminLabel (label : String) : Bool := startsWith label "admin" || startsWith label "p "

theorem isAdminBasket_basketForType (type : PermissionType) :
    isAdminBasket (basketForType type) = true := by
  cases type <;> decide +kernel

end WalletToolbox.Permissions
