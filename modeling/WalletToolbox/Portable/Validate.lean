import WalletToolbox.Portable.Canonical

/-! # BRC-38 document validation

Validation works on the raw JSON document, before any row is decoded: dates, byte columns and JSON
columns have their shape, and every foreign key names a row of the same document. -/

namespace WalletToolbox.Portable

open WalletToolbox.Lib

abbrev Row := List (String × Value)

/-- What is used of the calendar library: a date and time is parsed from its text without the zone
and printed again. -/
structure Chrono where
  reprint : String → Option String

def bad (message : String) : WalletError := .badRequest message

/-! ## Reading values -/

def asObject : Value → Option Row
  | .object fields => some fields
  | _ => none

def asArray : Value → Option (List Value)
  | .array items => some items
  | _ => none

def asStr : Value → Option String
  | .string s => some s
  | _ => none

def get (row : Row) (key : String) : Option Value := row.lookup key

/-- Extract an integer with `Number.isInteger` semantics. -/
def jsInt (value : Option Value) : Option Int :=
  match value with
  | some (.number n) =>
    match n.asI64 with
    | some i => some i
    | none =>
      match n.asF64.bind F64.integral? with
      | some i =>
        -- The cast to i64 saturates at the end of the range.
        if -9223372036854775808 ≤ i ∧ i ≤ 9223372036854775808 then some (min i 9223372036854775807)
        else none
      | none => none
  | _ => none

/-- A field present with a non-null value. -/
def present (row : Row) (key : String) : Option Value :=
  match get row key with
  | none | some .null => none
  | some v => some v

/-- The value must be an integer in the JS sense. -/
def requireNumber (value : Option Value) (path : String) : Except WalletError Int :=
  match jsInt value with
  | some i => .ok i
  | none => .error (bad s!"BRC-38 {path} must be an integer")

def requireString (value : Option Value) (path : String) : Except WalletError String :=
  match value.bind asStr with
  | some s => .ok s
  | none => .error (bad s!"BRC-38 {path} must be a string")

/-! ## Shapes -/

/-- The shape `\d{4}-\d{2}-\d{2}T\d{2}:\d{2}:\d{2}\.\d{3}Z`. -/
def isoShapeOk (s : String) : Bool :=
  let b := s.toUTF8.toList
  b.length == 24 && b.zipIdx.all fun (c, i) =>
    match i with
    | 4 | 7 => c == '-'.toUInt8
    | 10 => c == 'T'.toUInt8
    | 13 | 16 => c == ':'.toUInt8
    | 19 => c == '.'.toUInt8
    | 23 => c == 'Z'.toUInt8
    | _ => '0'.toUInt8 ≤ c && c ≤ '9'.toUInt8

/-- Exactly `YYYY-MM-DDTHH:MM:SS.mmmZ`, and an instant that is printed as the same string. -/
def assertIsoDate (chrono : Chrono) (value : Value) (path : String) : Except WalletError Unit := do
  let some s := asStr value | throw (bad s!"BRC-38 {path} must be a UTC ISO timestamp")
  if !isoShapeOk s then throw (bad s!"BRC-38 {path} must be a UTC ISO timestamp")
  let some printed := chrono.reprint (String.ofList s.toList.dropLast)
    | throw (bad s!"BRC-38 {path} is invalid")
  if printed ++ "Z" != s then throw (bad s!"BRC-38 {path} is invalid")

/-- A padded base64 string: whole groups of four, the standard alphabet, up to two trailing `=`. -/
def assertBase64 (value : Value) (path : String) : Except WalletError Unit := do
  let err := bad s!"BRC-38 {path} must be padded base64"
  let some s := asStr value | throw err
  let b := s.toUTF8.toList
  if b.length % 4 != 0 then throw err
  let trimmed := (b.reverse.dropWhile (· == '='.toUInt8)).reverse
  if b.length - trimmed.length > 2 then throw err
  if !trimmed.all (fun c => c.toNat < 128 && (Char.ofNat c.toNat).isAlphanum || c == '+'.toUInt8 ||
      c == '/'.toUInt8) then
    throw err

mutual

/-- No JSON null may appear anywhere in the document. -/
def rejectNulls (path : String) : Value → Except WalletError Unit
  | .null => .error (bad s!"BRC-38 {path} must omit null values")
  | .array items => rejectNullItems path 0 items
  | .object fields => rejectNullFields path fields
  | _ => .ok ()

def rejectNullItems (path : String) (i : Nat) : List Value → Except WalletError Unit
  | [] => .ok ()
  | item :: rest => do
    rejectNulls s!"{path}[{i}]" item
    rejectNullItems path (i + 1) rest

def rejectNullFields (path : String) : List (String × Value) → Except WalletError Unit
  | [] => .ok ()
  | (key, child) :: rest => do
    rejectNulls s!"{path}.{key}" child
    rejectNullFields path rest

end

/-! ## Columns -/

/-- Byte-array columns per row kind. -/
def binaryFields (kind : String) : List String :=
  match kind with
  | "commission" | "output" => ["lockingScript"]
  | "provenTx" => ["merklePath", "rawTx"]
  | "provenTxReq" => ["rawTx", "inputBEEF"]
  | "transaction" => ["inputBEEF", "rawTx"]
  | _ => []

/-- JSON-text columns per row kind. -/
def jsonFields (kind : String) : List String :=
  match kind with
  | "provenTxReq" => ["history", "notify"]
  | "syncState" => ["syncMap", "errorLocal", "errorOther"]
  | _ => []

/-- Date columns per row kind. -/
def dateFields (kind : String) : List String :=
  match kind with
  | "syncState" => ["created_at", "updated_at", "when"]
  | _ => ["created_at", "updated_at"]

def isObject (value : Value) : Bool := (asObject value).isSome

/-- Check the fields of a row that are there. -/
def checkFields (row : Row) (rowPath : String) (fields : List String)
    (check : Value → String → Except WalletError Unit) : Except WalletError Unit :=
  fields.forM fun field =>
    match get row field with
    | some value => check value s!"{rowPath}.{field}"
    | none => .ok ()

def validatePortableRows (chrono : Chrono) (kind : String) (rows : List Row) (path : String) :
    Except WalletError Unit :=
  rows.zipIdx.forM fun (row, index) => do
    let rowPath := s!"{path}[{index}]"
    checkFields row rowPath (dateFields kind) (assertIsoDate chrono)
    checkFields row rowPath (binaryFields kind) assertBase64
    checkFields row rowPath (jsonFields kind) fun value path =>
      if isObject value then .ok () else .error (bad s!"BRC-38 {path} must be an object")

/-! ## Relations -/

/-- The tables of a document. -/
abbrev Tables := String → List Row

/-- Collect a table's primary keys, rejecting duplicates. -/
def ids (rows : List Row) (field label : String) : Except WalletError (List Int) :=
  rows.foldlM (fun set row => do
    let id ← requireNumber (get row field) s!"{label}.{field}"
    if set.contains id then throw (bad s!"BRC-38 duplicate {label}.{field}: {id}")
    return id :: set) []

def requireRef (set : List Int) (value : Option Value) (path message : String) :
    Except WalletError Unit := do
  let id ← requireNumber value path
  if !set.contains id then throw (bad message)

def requireUserId (userId : Int) (label : String) (row : Row) : Except WalletError Unit := do
  let id ← requireNumber (get row "userId") s!"{label}.userId"
  if id != userId then throw (bad s!"BRC-38 {label}.userId does not match user.userId")

/-- The foreign key of a row, which names it in the message. -/
def requireKey (set : List Int) (entity field target : String) (row : Row) :
    Except WalletError Unit :=
  requireRef set (get row field) s!"{entity}.{field}"
    s!"BRC-38 {entity}.{field} does not reference an exported {target}"

/-- The same for a key that may be absent. -/
def requirePresent (set : List Int) (entity field target : String) (row : Row) :
    Except WalletError Unit :=
  match present row field with
  | some v => requireRef set (some v) s!"{entity}.{field}"
    s!"BRC-38 {entity}.{field} does not reference an exported {target}"
  | none => .ok ()

/-- Cross-table validation: every foreign key must reference a row inside the same document. -/
def validateRelationships (user : Row) (table : Tables) : Except WalletError Unit := do
  let userId ← requireNumber (get user "userId") "user.userId"
  let txIds ← ids (table "transactions") "transactionId" "transactions"
  let txidValues := (table "transactions").filterMap fun row => (get row "txid").bind asStr
  let provenTxIds ← ids (table "provenTxs") "provenTxId" "provenTxs"
  let basketIds ← ids (table "outputBaskets") "basketId" "outputBaskets"
  let outputIds ← ids (table "outputs") "outputId" "outputs"
  let outputTagIds ← ids (table "outputTags") "outputTagId" "outputTags"
  let txLabelIds ← ids (table "txLabels") "txLabelId" "txLabels"
  let certificateIds ← ids (table "certificates") "certificateId" "certificates"
  (table "transactions").forM fun row => do
    requireUserId userId "transactions" row
    requirePresent provenTxIds "transaction" "provenTxId" "provenTx" row
  ["outputBaskets", "outputTags", "txLabels", "certificates", "syncStates"].forM fun name =>
    (table name).forM (requireUserId userId name)
  (table "outputs").forM fun row => do
    requireUserId userId "outputs" row
    requireKey txIds "output" "transactionId" "transaction" row
    requirePresent basketIds "output" "basketId" "output basket" row
    requirePresent txIds "output" "spentBy" "transaction" row
  (table "commissions").forM fun row => do
    requireUserId userId "commissions" row
    requireKey txIds "commission" "transactionId" "transaction" row
  (table "txLabelMaps").forM fun row => do
    requireKey txIds "txLabelMap" "transactionId" "transaction" row
    requireKey txLabelIds "txLabelMap" "txLabelId" "transaction label" row
  (table "outputTagMaps").forM fun row => do
    requireKey outputIds "outputTagMap" "outputId" "output" row
    requireKey outputTagIds "outputTagMap" "outputTagId" "output tag" row
  (table "certificateFields").forM fun row => do
    requireUserId userId "certificateFields" row
    requireKey certificateIds "certificateField" "certificateId" "certificate" row
  (table "provenTxReqs").forM fun row => do
    let txid ← requireString (get row "txid") "provenTxReq.txid"
    if !txidValues.contains txid then
      throw (bad "BRC-38 provenTxReq.txid does not match an exported transaction")
    requirePresent provenTxIds "provenTxReq" "provenTxId" "provenTx" row

/-! ## The document -/

def brc38Title : String := "User Wallet Data Format"

/-- The thirteen table arrays of a document with the kinds of their rows, in document order. -/
def tableKinds : List (String × String) :=
  [("provenTx", "provenTxs"), ("provenTxReq", "provenTxReqs"), ("outputBasket", "outputBaskets"),
    ("transaction", "transactions"), ("commission", "commissions"), ("output", "outputs"),
    ("outputTag", "outputTags"), ("outputTagMap", "outputTagMaps"), ("txLabel", "txLabels"),
    ("txLabelMap", "txLabelMaps"), ("certificate", "certificates"),
    ("certificateField", "certificateFields"), ("syncState", "syncStates")]

/-- A section of the document that must be an object. -/
def requireObject (map : Row) (name : String) : Except WalletError Row :=
  match (get map name).bind asObject with
  | some row => .ok row
  | none => .error (bad s!"BRC-38 {name} must be an object")

/-- The rows of a table, each an object. -/
def tableRows (tables : Row) (name : String) : Except WalletError (List Row) :=
  (((get tables name).bind asArray).getD []).zipIdx.mapM fun (row, i) =>
    match asObject row with
    | some row => .ok row
    | none => .error (bad s!"BRC-38 {name}[{i}] must be an object")

/-- The rows of a table of a validated document. -/
def rowsOf (tables : Row) (name : String) : List Row :=
  (((get tables name).bind asArray).getD []).filterMap asObject

/-- Validate a JSON value as a document. -/
def checkBrc38 (chrono : Chrono) (value : Value) : Except WalletError Unit := do
  rejectNulls "document" value
  let some map := asObject value | throw (bad "BRC-38 document must be an object")
  if jsInt (get map "brc") != some 38 then throw (bad "BRC-38 document brc must equal 38")
  if (get map "title").bind asStr != some brc38Title then
    throw (bad "BRC-38 title must equal User Wallet Data Format")
  if jsInt (get map "formatVersion") != some 1 then
    throw (bad "BRC-38 formatVersion must equal 1")
  assertIsoDate chrono ((get map "exportedAt").getD .null) "exportedAt"
  let sourceStorage ← requireObject map "sourceStorage"
  let user ← requireObject map "user"
  let tables ← requireObject map "tables"
  tableKinds.forM fun (_, name) =>
    if ((get tables name).bind asArray).isSome then .ok ()
    else .error (bad s!"BRC-38 tables.{name} must be an array")
  validatePortableRows chrono "settings" [sourceStorage] "sourceStorage"
  validatePortableRows chrono "user" [user] "user"
  tableKinds.forM fun (kind, name) => do
    let rows ← tableRows tables name
    validatePortableRows chrono kind rows name
  validateRelationships user (rowsOf tables)

/-- A validated document: construction always validates. -/
structure Brc38WalletData (chrono : Chrono) where
  value : Value
  valid : checkBrc38 chrono value = .ok ()

def validateBrc38 (chrono : Chrono) (value : Value) : Except WalletError (Brc38WalletData chrono) :=
  match h : checkBrc38 chrono value with
  | .ok () => .ok ⟨value, h⟩
  | .error e => .error e

end WalletToolbox.Portable
