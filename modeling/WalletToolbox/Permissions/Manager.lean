import WalletToolbox.Lib.Runs
import WalletToolbox.Permissions.Ensure

/-! # The permissions manager

Every method of the wallet interface checks what it needs and then hands the call to the wallet
below. -/

namespace WalletToolbox.Permissions

open WalletToolbox.Lib
open WalletToolbox.Storage (Bytes)

/-! ## Arguments -/

inductive Counterparty where
  | self
  | anyone
  | other (publicKey : Option String)
  | uninitialized
deriving DecidableEq, Repr

/-- `counterparty_str`. -/
def Counterparty.text : Counterparty → String
  | self => "self"
  | anyone => "anyone"
  | other publicKey => publicKey.getD ""
  | uninitialized => ""

/-- What the methods with a key take: the protocol, the counterparty, and whether the key is the
privileged one. -/
structure KeyArgs where
  protocol : String
  securityLevel : Nat
  counterparty : Counterparty
  privileged : Bool
deriving DecidableEq, Repr

structure CreateActionArgs where
  outputs : List CreateActionOutput := []
  labels : Option (List String) := none
deriving DecidableEq, Repr

/-- What becomes of an output that is internalized. -/
inductive Remittance where
  | walletPayment
  | basketInsertion (basket : String) (tags : List String)
deriving DecidableEq, Repr

structure InternalizeOutput where
  outputIndex : Nat
  remittance : Remittance
deriving DecidableEq, Repr

/-- A transaction of somebody else, with the amounts and scripts of its outputs. -/
structure InternalizeActionArgs where
  txid : String
  txOutputs : List (Nat × Bytes)
  outputs : List InternalizeOutput
  labels : List String
deriving DecidableEq, Repr

/-- The methods of the wallet interface. Certificate types are given in base 64, public keys in
hexadecimal digits. -/
inductive WalletCall where
  | isAuthenticated
  | waitForAuthentication
  | getHeight
  | getHeaderForHeight
  | getNetwork
  | getVersion
  | createAction (args : CreateActionArgs)
  | signAction
  | abortAction (txid : String)
  | listActions (labels : List String)
  | internalizeAction (args : InternalizeActionArgs)
  | listOutputs (basket : String)
  | relinquishOutput (basket : String) (output : Outpoint)
  | getPublicKey (args : Option KeyArgs)
  | revealCounterpartyKeyLinkage (counterparty : String) (privileged : Option Bool)
  | revealSpecificKeyLinkage (args : KeyArgs)
  | encrypt (args : KeyArgs)
  | decrypt (args : KeyArgs)
  | createHmac (args : KeyArgs)
  | verifyHmac (args : KeyArgs)
  | createSignature (args : KeyArgs)
  | verifySignature (args : KeyArgs)
  | acquireCertificate (certType : String) (privileged : Bool)
  | listCertificates (privileged : Bool)
  | proveCertificate (certType : String) (fieldsToReveal : List String) (verifier : String)
      (privileged : Bool)
  | relinquishCertificate (certType : String)
  | discoverByIdentityKey
  | discoverByAttributes
deriving DecidableEq, Repr

/-! ## The wallet below -/

/-- What the wallet below answers to the call that it is handed: the transaction id and the net
amount of a new action, the outputs of its signable transaction (an error when these bytes do not
parse), and whether it can be aborted. -/
structure Reply where
  txid : String
  satoshis : Int
  signable : Option (Except SdkError (List (Bytes × Option Nat)))
  aborts : Bool

/-- The basket of a payment to the wallet itself. -/
def defaultBasket : String := "default"

namespace Inner

/-- `internalize_action`. -/
def internalizeAction (s : Inner) (satoshis : Int) (args : InternalizeActionArgs) : Inner where
  outputs := s.outputs ++ args.outputs.filterMap fun output =>
    args.txOutputs[output.outputIndex]?.map fun (amount, script) =>
      { outpoint := ⟨args.txid, output.outputIndex⟩
        satoshis := amount
        lockingScript := some script
        basket := match output.remittance with
          | .walletPayment => some defaultBasket
          | .basketInsertion basket _ => some basket
        tags := match output.remittance with
          | .walletPayment => []
          | .basketInsertion _ tags => tags }
  actions := s.actions ++ [{ txid := args.txid, labels := args.labels, satoshis }]

end Inner

/-! ## The methods -/

/-- The sum of the outputs, a 64-bit number. -/
def totalOutputSats (outputs : List CreateActionOutput) : Nat :=
  (outputs.map (·.satoshis)).sum % 2 ^ 64

/-- `verify_requested_outputs_present`, from the number `i` on: each output of the transaction may
serve one of those that were asked for. -/
def verifyRequestedOutputsPresent (i : Nat) :
    List (Option Bytes × Nat) → List (Bytes × Option Nat) → Except SdkError Unit
  | [], _ => .ok ()
  | (wantScript, wantSats) :: rest, available =>
    if (wantScript.getD [], some wantSats) ∈ available then
      verifyRequestedOutputsPresent (i + 1) rest
        (available.erase (wantScript.getD [], some wantSats))
    else
      .error (.invalidParameter ("The transaction returned for signing does not contain " ++
        "caller-requested output " ++ toString i ++ " (locking script and amount). The recipient " ++
        "may have been substituted by storage."))

/-- The check of a signable transaction; one that does not parse passes when nothing was asked for. -/
def checkSignable (args : CreateActionArgs) :
    Option (Except SdkError (List (Bytes × Option Nat))) → Except SdkError Unit
  | none => .ok ()
  | some (.error e) => if args.outputs = [] then .ok () else .error e
  | some (.ok available) =>
    verifyRequestedOutputsPresent 0
      (args.outputs.map fun output => (output.lockingScript, output.satoshis)) available

/-- The end of `create_action`: the labels of the monthly account, the call to the wallet below, and
the check of what it returns. -/
def delegateCreateAction (a : Answers) (reply : Except SdkError Reply) (originator : String)
    (args : CreateActionArgs) : Check := fun s =>
  match a.metadata, reply with
  | some e, _ => some (.error e, s)
  | none, .error e => some (.error e, s)
  | none, .ok reply =>
    let labels := args.labels.getD [] ++ accountLabels originator a.month
    let created := s.inner.createAction reply.txid reply.satoshis args.outputs labels
    match checkSignable args reply.signable with
    | .ok () => some (.ok (), { s with inner := created })
    | .error e =>
      some (.error e,
        { s with inner := if reply.aborts then created.abortAction reply.txid else created })

/-- A call that the wallet below serves, with what it leaves there. -/
def delegate (reply : Except SdkError Reply) (effect : Reply → Inner → Inner) : Check := fun s =>
  match reply with
  | .ok reply => some (.ok (), { s with inner := effect reply s.inner })
  | .error e => some (.error e, s)

section

variable (kit : Kit) (mgr : Manager) (a : Answers) (originator : String)

/-- The checks of `create_action`: the basket of each output, then the amount. -/
def createActionChecks (args : CreateActionArgs) : Check :=
  (Check.all <| args.outputs.filterMap fun output =>
    output.basket.map fun basket => ensureBasketAccess kit mgr a originator basket .insertion).andThen
  (if 0 < totalOutputSats args.outputs then
    ensureSpendingAuthorization kit mgr a originator (totalOutputSats args.outputs)
  else Check.pass)

/-- The check of a method with a key. -/
def keyCheck (args : KeyArgs) (usage : ProtocolUsage) : Check :=
  ensureProtocolPermission kit mgr a originator args.protocol args.securityLevel
    args.counterparty.text args.privileged usage

/-- A check that a flag of the configuration can turn off. -/
def checkIf (required : Bool) (check : Check) : Check := if required then check else Check.pass

/-- What a method checks before it hands the call on. `internalize_action` checks nothing. -/
def WalletCall.checks : WalletCall → Check
  | .isAuthenticated | .waitForAuthentication | .getHeight | .getHeaderForHeight | .getNetwork
  | .getVersion | .signAction | .abortAction _ | .internalizeAction _ => Check.pass
  | .createAction args => createActionChecks kit mgr a originator args
  | .listActions labels =>
    if labels = [] then Check.pass else ensureLabelAccess kit mgr a originator labels
  | .listOutputs basket => ensureBasketAccess kit mgr a originator basket .listing
  | .relinquishOutput basket _ => ensureBasketAccess kit mgr a originator basket .relinquishing
  | .getPublicKey none => Check.pass
  | .getPublicKey (some args) => keyCheck kit mgr a originator args .publicKey
  | .revealCounterpartyKeyLinkage counterparty privileged =>
    ensureProtocolPermission kit mgr a originator "key linkage revelation" 2 counterparty
      (privileged.getD false) .keyLinkage
  | .revealSpecificKeyLinkage args => keyCheck kit mgr a originator args .keyLinkage
  | .encrypt args => keyCheck kit mgr a originator args .encrypting
  | .decrypt args => keyCheck kit mgr a originator args .decryption
  | .createHmac args => keyCheck kit mgr a originator args .hmac
  | .verifyHmac args => keyCheck kit mgr a originator args .hmacVerification
  | .createSignature args => keyCheck kit mgr a originator args .signing
  | .verifySignature args => keyCheck kit mgr a originator args .signatureVerification
  | .acquireCertificate certType privileged =>
    checkIf mgr.config.requireCertificateAccessForAcquisition <|
      ensureProtocolPermission kit mgr a originator ("certificate acquisition " ++ certType) 1 "self"
        privileged .generic
  | .listCertificates privileged =>
    checkIf mgr.config.requireCertificateAccessForListing <|
      ensureProtocolPermission kit mgr a originator "certificate list" 1 "self" privileged .generic
  | .proveCertificate certType fieldsToReveal verifier privileged =>
    ensureCertificateAccess kit mgr a originator certType (some fieldsToReveal) (some verifier)
      privileged .disclosure
  | .relinquishCertificate certType =>
    checkIf mgr.config.requireCertificateAccessForRelinquishing <|
      ensureProtocolPermission kit mgr a originator ("certificate relinquishment " ++ certType) 1
        "self" false .generic
  | .discoverByIdentityKey | .discoverByAttributes =>
    checkIf mgr.config.requireCertificateAccessForDiscovery <|
      ensureCertificateAccess kit mgr a originator "*" none none false .discovery

/-- What the wallet below does. -/
def WalletCall.delegated (reply : Except SdkError Reply) : WalletCall → Check
  | .createAction args => delegateCreateAction a reply originator args
  | .abortAction txid => delegate reply fun _ inner => inner.abortAction txid
  | .internalizeAction args =>
    delegate reply fun reply inner => inner.internalizeAction reply.satoshis args
  | .relinquishOutput basket output => delegate reply fun _ inner => inner.relinquishOutput basket output
  | _ => delegate reply fun _ inner => inner

/-- A call of the wallet interface. -/
def WalletCall.serve (reply : Except SdkError Reply) (call : WalletCall) : Check :=
  (call.checks kit mgr a originator).andThen (call.delegated a originator reply)

end

/-! ## The system -/

/-- A call by an originator, with the answers of the outside. -/
structure Request where
  originator : Option String
  call : WalletCall
  answers : Answers
  reply : Except SdkError Reply

/-- `orig`: an originator that is missing is empty. -/
def Request.orig (r : Request) : String := r.originator.getD ""

/-- The state after a call; one that waits for ever leaves it as it is. -/
def Request.next (kit : Kit) (mgr : Manager) (r : Request) (s : State) : State :=
  match r.call.serve kit mgr r.answers r.orig r.reply s with
  | some (_, s') => s'
  | none => s

/-- The user refuses a request. -/
def Answers.Denies (a : Answers) (request : PermissionRequest) : Prop :=
  ∃ reason, firePermissionCallback a request = .deny reason

/-- The user never grants. -/
def Answers.NeverGrants (a : Answers) : Prop := ∀ request, a.Denies request

/-- The manager over a wallet that keeps what it is given, used by applications. -/
def applications (kit : Kit) (mgr : Manager) : System State Request where
  init := {}
  Enabled _ r := mgr.isAdmin kit (normalizeOriginator kit.lowercase r.orig) = false ∧
    r.answers.NeverGrants
  next := Request.next kit mgr

end WalletToolbox.Permissions
