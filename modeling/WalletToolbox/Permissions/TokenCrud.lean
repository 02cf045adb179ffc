import WalletToolbox.Permissions.Types

/-! # Permission tokens

A token is an output of the wallet below, in the basket of its type, with tags to look it up by and
a script whose fields are encrypted for the admin.
A field that does not decrypt is read as plain text. -/

namespace WalletToolbox.Permissions

open WalletToolbox.Storage (Bytes)

/-! ## The wallet below -/

/-- An outpoint, written as the transaction id and the index with a dot between them. -/
structure Outpoint where
  txid : String
  outputIndex : Nat
deriving DecidableEq, Repr

structure InnerOutput where
  outpoint : Outpoint
  satoshis : Nat
  lockingScript : Option Bytes
  basket : Option String
  tags : List String
deriving DecidableEq, Repr

/-- An action with its net amount, negative for a spend. -/
structure InnerAction where
  txid : String
  labels : List String
  satoshis : Int
deriving DecidableEq, Repr

/-- The wallet that the manager wraps: it keeps what it is given. -/
structure Inner where
  outputs : List InnerOutput := []
  actions : List InnerAction := []
deriving DecidableEq, Repr

structure CreateActionOutput where
  lockingScript : Option Bytes
  satoshis : Nat
  basket : Option String
  tags : Option (List String)
deriving DecidableEq, Repr

/-- The rows of the outputs of a new action. -/
def newOutputs (txid : String) (outputs : List CreateActionOutput) : List InnerOutput :=
  outputs.zipIdx.map fun (output, index) =>
    { outpoint := ⟨txid, index⟩
      satoshis := output.satoshis
      lockingScript := output.lockingScript
      basket := output.basket
      tags := output.tags.getD [] }

namespace Inner

/-- `create_action`, with the transaction id and the net amount that come out. -/
def createAction (s : Inner) (txid : String) (satoshis : Int) (outputs : List CreateActionOutput)
    (labels : List String) : Inner where
  outputs := s.outputs ++ newOutputs txid outputs
  actions := s.actions ++ [{ txid, labels, satoshis }]

/-- `abort_action`. -/
def abortAction (s : Inner) (txid : String) : Inner where
  outputs := s.outputs.filter fun output => output.outpoint.txid ≠ txid
  actions := s.actions.filter fun action => action.txid ≠ txid

/-- `list_outputs` with all of the tags, at most ten thousand. -/
def listOutputs (s : Inner) (basket : String) (tags : List String) : List InnerOutput :=
  (s.outputs.filter fun output =>
    output.basket = some basket ∧ ∀ tag ∈ tags, tag ∈ output.tags).take 10000

/-- `relinquish_output`: the output leaves its basket. -/
def relinquishOutput (s : Inner) (basket : String) (outpoint : Outpoint) : Inner :=
  { s with outputs := s.outputs.map fun output =>
      if output.outpoint = outpoint ∧ output.basket = some basket then { output with basket := none }
      else output }

/-- `list_actions` with all of the labels, at most ten thousand. -/
def listActions (s : Inner) (labels : List String) : List InnerAction :=
  (s.actions.filter fun action => ∀ label ∈ labels, label ∈ action.labels).take 10000

end Inner

/-! ## Fields -/

/-- What the manager takes from the SDK and from the cryptography of the wallet below: the
decryption (`none` is a failure) and the encryption of a token's fields, and the script template of
tokens. -/
structure Kit where
  lowercase : String → String
  encrypt : Bytes → Bytes
  decrypt : Bytes → Option Bytes
  lockPushDrop : List Bytes → Bytes
  decodePushDrop : Bytes → Option (List Bytes)

def isContinuation (b : UInt8) : Bool := 0x80 ≤ b && b ≤ 0xbf

/-- The second bytes that may follow a first one. -/
def isSecond (b₀ b₁ : UInt8) : Bool :=
  if b₀ = 0xe0 then 0xa0 ≤ b₁ && b₁ ≤ 0xbf
  else if b₀ = 0xed then 0x80 ≤ b₁ && b₁ ≤ 0x9f
  else if b₀ = 0xf0 then 0x90 ≤ b₁ && b₁ ≤ 0xbf
  else if b₀ = 0xf4 then 0x80 ≤ b₁ && b₁ ≤ 0x8f
  else isContinuation b₁

def codePoint (head : Nat) (tail : List UInt8) : Char :=
  Char.ofNat (tail.foldl (fun n b => n * 64 + b.toNat % 64) head)

/-- `String::from_utf8_lossy`: each malformed sequence becomes one replacement character. -/
def fromUtf8Lossy : Bytes → List Char
  | [] => []
  | b₀ :: rest₀ =>
    if b₀ < 0x80 then codePoint b₀.toNat [] :: fromUtf8Lossy rest₀
    else if b₀ < 0xc2 || 0xf4 < b₀ then '\ufffd' :: fromUtf8Lossy rest₀
    else
      match rest₀ with
      | [] => ['\ufffd']
      | b₁ :: rest₁ =>
        if !isSecond b₀ b₁ then '\ufffd' :: fromUtf8Lossy (b₁ :: rest₁)
        else if b₀ < 0xe0 then codePoint (b₀.toNat % 32) [b₁] :: fromUtf8Lossy rest₁
        else
          match rest₁ with
          | [] => ['\ufffd']
          | b₂ :: rest₂ =>
            if !isContinuation b₂ then '\ufffd' :: fromUtf8Lossy (b₂ :: rest₂)
            else if b₀ < 0xf0 then codePoint (b₀.toNat % 16) [b₁, b₂] :: fromUtf8Lossy rest₂
            else
              match rest₂ with
              | [] => ['\ufffd']
              | b₃ :: rest₃ =>
                if !isContinuation b₃ then '\ufffd' :: fromUtf8Lossy (b₃ :: rest₃)
                else codePoint (b₀.toNat % 8) [b₁, b₂, b₃] :: fromUtf8Lossy rest₃

/-- `decrypt_token_field`. -/
def decryptTokenField (kit : Kit) (ciphertext : Bytes) : String :=
  match kit.decrypt ciphertext with
  | some plaintext => String.ofList (fromUtf8Lossy plaintext)
  -- On a failure the raw bytes are the text.
  | none => String.ofList (fromUtf8Lossy ciphertext)

/-- `parse_length_prefixed_fields`. -/
def parseLengthPrefixedFields : Nat → Bytes → List Bytes
  | fuel + 1, b₀ :: b₁ :: b₂ :: b₃ :: rest =>
    let len := b₀.toNat + 256 * b₁.toNat + 65536 * b₂.toNat + 16777216 * b₃.toNat
    if rest.length < len then []
    else rest.take len :: parseLengthPrefixedFields fuel (rest.drop len)
  | _, _ => []

/-- `parse_token_fields`. -/
def parseTokenFields (kit : Kit) (script : Bytes) : List Bytes :=
  (kit.decodePushDrop script).getD (parseLengthPrefixedFields script.length script)

/-! ## Lookup -/

structure TokenLookupFilters where
  protocol : Option String := none
  securityLevel : Option Nat := none
  counterparty : Option String := none
  basketName : Option String := none
  certType : Option String := none
  verifier : Option String := none
  privileged : Option Bool := none
  includeExpired : Bool := false
deriving DecidableEq, Repr

/-- The tags that a lookup asks for beside the originator's. -/
def TokenLookupFilters.tags (filters : TokenLookupFilters) : PermissionType → List String
  | .protocolPermission =>
    (filters.privileged.map fun flag => "privileged " ++ toString flag).toList ++
    (filters.protocol.map fun name => "protocolName " ++ name).toList ++
    (filters.securityLevel.map fun level => "protocolSecurityLevel " ++ toString level).toList ++
    (filters.counterparty.map fun name => "counterparty " ++ name).toList.filter
      fun _ => filters.securityLevel = some 2
  | .basketAccess => (filters.basketName.map fun name => "basket " ++ name).toList
  | .certificateAccess =>
    (filters.privileged.map fun flag => "privileged " ++ toString flag).toList ++
    (filters.certType.map fun type => "type " ++ type).toList ++
    (filters.verifier.map fun verifier => "verifier " ++ verifier).toList
  | .spendingAuthorization => []

/-- `is_token_expired`, at a time in seconds. -/
def isTokenExpired (now expiry : Nat) : Bool := expiry ≠ 0 ∧ expiry < now

/-- Read the token of an output; `none` when the lookup passes over it. -/
def readToken (kit : Kit) (now : Nat) (type : PermissionType) (normalized : String)
    (filters : TokenLookupFilters) (output : InnerOutput) : Option PermissionToken :=
  output.lockingScript.bind fun script =>
    let fields := (parseTokenFields kit script).map (decryptTokenField kit)
    let domain := fields.getD 0 ""
    let normDomain := normalizeOriginator kit.lowercase domain
    let expiry := (parseUnsigned 64 (fields.getD 1 "").toList).getD 0
    let privileged := fields.getD 2 "" == "true"
    let token : PermissionToken :=
      { txid := output.outpoint.txid
        outputIndex := output.outpoint.outputIndex
        outputScript := script
        satoshis := output.satoshis
        originator := normDomain
        rawOriginator := some domain
        expiry := some expiry }
    let expired := !filters.includeExpired && isTokenExpired now expiry
    let otherPrivilege := filters.privileged.any (· ≠ privileged)
    match type with
    | .protocolPermission =>
      if fields.length < 6 ∨ normDomain ≠ normalized ∨ otherPrivilege ∨ expired then none
      else some { token with
        privileged := some privileged
        securityLevel := some ((parseUnsigned 8 (fields.getD 3 "").toList).getD 0)
        protocol := some (fields.getD 4 "")
        counterparty := some (fields.getD 5 "") }
    | .basketAccess =>
      if fields.length < 3 ∨ normDomain ≠ normalized ∨ expired then none
      else some { token with basketName := some (fields.getD 2 "") }
    | .certificateAccess =>
      if fields.length < 6 ∨ normDomain ≠ normalized ∨ otherPrivilege ∨ expired then none
      else some { token with
        privileged := some privileged
        certType := some (fields.getD 3 "")
        certFields := some (fields.getD 4 "")
        verifier := some (fields.getD 5 "") }
    | .spendingAuthorization =>
      if fields.length < 2 ∨ normDomain ≠ normalized then none
      else some { token with
        expiry := some 0
        authorizedAmount := some ((parseUnsigned 64 (fields.getD 1 "").toList).getD 0) }

/-- Take the tokens of some outputs, each outpoint once. -/
def collectTokens (read : InnerOutput → Option PermissionToken) :
    List InnerOutput → List Outpoint → List PermissionToken
  | [], _ => []
  | output :: rest, seen =>
    if output.outpoint ∈ seen then collectTokens read rest seen
    else
      match read output with
      | some token => token :: collectTokens read rest (output.outpoint :: seen)
      | none => collectTokens read rest seen

theorem collectTokens_eq_nil {read : InnerOutput → Option PermissionToken} {outputs : List InnerOutput}
    {seen : List Outpoint} (h : ∀ output ∈ outputs, read output = none) :
    collectTokens read outputs seen = [] := by
  induction outputs generalizing seen with
  | nil => rfl
  | cons output rest ih =>
    have hrest := fun output hmem => h output (List.mem_cons_of_mem _ hmem)
    rw [collectTokens, h output List.mem_cons_self]
    split
    · exact ih hrest
    · exact ih hrest

/-- `lookup_permission_tokens`; the time is in milliseconds. -/
def lookupPermissionTokens (kit : Kit) (now : Nat) (type : PermissionType) (originator : String)
    (filters : TokenLookupFilters) (inner : Inner) : List PermissionToken :=
  let listed := (buildOriginatorLookupValues kit.lowercase originator).flatMap fun originTag =>
    inner.listOutputs (basketForType type) (("originator " ++ originTag) :: filters.tags type)
  collectTokens
    (readToken kit (now / 1000) type (normalizeOriginator kit.lowercase originator) filters) listed []

/-! ## Creation and revocation -/

/-- `build_tags_for_request`. -/
def buildTagsForRequest (request : PermissionRequest) : List String :=
  ("originator " ++ request.originator) ::
    match request.permissionType with
    | .protocolPermission =>
      ["privileged " ++ toString (request.privileged.getD false)] ++
      (request.protocol.map fun name => "protocolName " ++ name).toList ++
      match request.securityLevel with
      | some level =>
        ("protocolSecurityLevel " ++ toString level) ::
          if level = 2 then ["counterparty " ++ request.counterparty.getD "self"] else []
      | none => []
    | .basketAccess => (request.basketName.map fun name => "basket " ++ name).toList
    | .certificateAccess =>
      ["privileged " ++ toString (request.privileged.getD false)] ++
      (request.certType.map fun type => "type " ++ type).toList ++
      (request.verifier.map fun verifier => "verifier " ++ verifier).toList
    | .spendingAuthorization => []

/-- A character inside a JSON text. -/
def jsonChar (c : Char) : List Char :=
  match c with
  | '"' => ['\\', '"']
  | '\\' => ['\\', '\\']
  | '\n' => ['\\', 'n']
  | '\r' => ['\\', 'r']
  | '\t' => ['\\', 't']
  | '\x08' => ['\\', 'b']
  | '\x0c' => ['\\', 'f']
  | c =>
    if c.toNat < 0x20 then
      ['\\', 'u', '0', '0', Nat.digitChar (c.toNat / 16), Nat.digitChar (c.toNat % 16)]
    else [c]

/-- A list of texts as JSON. -/
def jsonTexts (texts : List String) : String :=
  let quoted := texts.map fun text => ['"'] ++ text.toList.flatMap jsonChar ++ ['"']
  String.ofList (['['] ++ [','].intercalate quoted ++ [']'])

/-- The plain fields of `build_pushdrop_fields`. -/
def pushdropFields (request : PermissionRequest) (expiry : Nat) : List String :=
  match request.permissionType with
  | .protocolPermission =>
    let level := request.securityLevel.getD 0
    [request.originator, toString expiry, toString (request.privileged.getD false), toString level,
      request.protocol.getD "", if level = 2 then request.counterparty.getD "self" else ""]
  | .basketAccess => [request.originator, toString expiry, request.basketName.getD ""]
  | .certificateAccess =>
    [request.originator, toString expiry, toString (request.privileged.getD false),
      request.certType.getD "", (request.certFields.map jsonTexts).getD "[]",
      request.verifier.getD ""]
  | .spendingAuthorization => [request.originator, toString (request.amount.getD 0)]

/-- `create_permission_token`, with the transaction id that comes out. -/
def createPermissionToken (kit : Kit) (request : PermissionRequest) (expiry : Option Nat)
    (txid : String) (inner : Inner) : Inner :=
  let fields := (pushdropFields request (expiry.getD 0)).map fun field =>
    kit.encrypt field.toUTF8.toList
  inner.createAction txid (-1)
    [{ lockingScript := some (kit.lockPushDrop fields)
       satoshis := 1
       basket := some (basketForType request.permissionType)
       tags := some (buildTagsForRequest request) }] []

/-- `revoke_permission_token`. -/
def revokePermissionToken (basket : String) (outpoint : Outpoint) (inner : Inner) : Inner :=
  inner.relinquishOutput basket outpoint

/-- `revoke_all_for_originator` when every token is relinquished. -/
def revokeAllForOriginator (kit : Kit) (now : Nat) (originator : String) (inner : Inner) : Inner :=
  [PermissionType.protocolPermission, .basketAccess, .certificateAccess,
      .spendingAuthorization].foldl
    (fun inner type =>
      (lookupPermissionTokens kit now type originator { includeExpired := true } inner).foldl
        (fun inner token =>
          revokePermissionToken (basketForType type) ⟨token.txid, token.outputIndex⟩ inner)
        inner)
    inner

/-! ## Spending -/

/-- A 64-bit signed number. -/
def wrapInt64 (n : Int) : Int := (n + 2 ^ 63) % 2 ^ 64 - 2 ^ 63

/-- The labels by which the account of a month is found. -/
def accountLabels (originator month : String) : List String :=
  ["admin originator " ++ originator, "admin month " ++ month]

/-- `query_spent_since` in a month. -/
def querySpentSince (kit : Kit) (month : String) (originator : String) (inner : Inner) : Nat :=
  let listed := (buildOriginatorLookupValues kit.lowercase originator).flatMap fun origin =>
    inner.listActions (accountLabels origin month)
  (listed.foldl (fun total action => wrapInt64 (total - action.satoshis)) 0).toNat

/-! ## A kit to run the model with -/

/-- The data of a list of pushes, up to the first other opcode. -/
def readPushes : Nat → Bytes → List Bytes
  | fuel + 1, len :: rest =>
    if len < 0x4c then rest.take len.toNat :: readPushes fuel (rest.drop len.toNat) else []
  | _, _ => []

/-- Fields of less than 76 bytes behind a public key, with ciphertexts that are marked by their first
byte. -/
def sampleKit : Kit where
  lowercase s := String.ofList (s.toList.map Char.toLower)
  encrypt plaintext := 0xff :: plaintext
  decrypt
    | 0xff :: plaintext => some plaintext
    | _ => none
  lockPushDrop fields :=
    0x21 :: List.replicate 33 2 ++ 0xac :: fields.flatMap (fun field => UInt8.ofNat field.length :: field)
      ++ List.replicate (fields.length / 2) 0x6d ++ List.replicate (fields.length % 2) 0x75
  decodePushDrop script :=
    if script.take 1 = [0x21] ∧ (script.drop 34).take 1 = [0xac] then
      some (readPushes script.length (script.drop 35))
    else none

end WalletToolbox.Permissions
