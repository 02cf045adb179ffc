import WalletToolbox.Lib.Fields
import WalletToolbox.Permissions.Ensure

/-! # What a cache key stands for

A key joins the type, the originator and the details of a check with colons, which originators and
names may contain themselves.
Two checks of one type share a key without asking for the same permission exactly when a boundary
between two fields has moved, or when one names an empty verifier and the other none. -/

namespace WalletToolbox.Permissions

open WalletToolbox.Lib.Fields

/-- A call of one of the `ensure` functions that use the cache, with its arguments. -/
inductive PermissionCheck where
  | protocol (originator protocol : String) (securityLevel : Nat) (counterparty : String)
      (privileged : Bool) (usage : ProtocolUsage)
  | basket (originator basketName : String) (usage : BasketUsage)
  | certificate (originator certType : String) (certFields : Option (List String))
      (verifier : Option String) (privileged : Bool) (usage : CertificateUsage)

namespace PermissionCheck

/-- What the `ensure` function makes of the call. -/
def decision (kit : Kit) (mgr : Manager) : PermissionCheck → Decision
  | .protocol originator name securityLevel counterparty privileged usage =>
    protocolDecision kit mgr originator name securityLevel counterparty privileged usage
  | .basket originator basketName usage => basketDecision kit mgr originator basketName usage
  | .certificate originator certType certFields verifier privileged usage =>
    certificateDecision kit mgr originator certType certFields verifier privileged usage

def permissionType : PermissionCheck → PermissionType
  | .protocol .. => .protocolPermission
  | .basket .. => .basketAccess
  | .certificate .. => .certificateAccess

def originator : PermissionCheck → String
  | .protocol originator .. => originator
  | .basket originator .. => originator
  | .certificate originator .. => originator

/-- The verifier of a certificate check. -/
def verifier : PermissionCheck → Option String
  | .certificate _ _ _ verifier _ _ => verifier
  | _ => none

/-- The fields of the key behind the type. -/
def fields (kit : Kit) (mgr : Manager) : PermissionCheck → List String
  | .protocol originator name securityLevel counterparty privileged _ =>
    [normalizeOriginator kit.lowercase originator, name, toString securityLevel,
      if securityLevel = 1 then "" else counterparty,
      toString (privileged && mgr.config.differentiatePrivilegedOperations)]
  | .basket originator basketName _ => [normalizeOriginator kit.lowercase originator, basketName]
  | .certificate originator certType _ verifier privileged _ =>
    [normalizeOriginator kit.lowercase originator, certType, verifier.getD "",
      toString (privileged && mgr.config.differentiatePrivilegedOperations)]

/-- Two checks of one type whose keys are the same text although a boundary between two fields has
moved, or although only one of them names a verifier (the other names the empty one). -/
def Confused (kit : Kit) (mgr : Manager) (c c' : PermissionCheck) : Prop :=
  c.permissionType = c'.permissionType ∧
    (Moved (c.fields kit mgr) (c'.fields kit mgr) ∨ Moved (c'.fields kit mgr) (c.fields kit mgr) ∨
      (c.fields kit mgr = c'.fields kit mgr ∧ c.verifier ≠ c'.verifier))

/-- What the user would be asked, apart from the words and the certificate fields. -/
def asked (kit : Kit) (mgr : Manager) : PermissionCheck → PermissionRequest
  | .protocol originator name securityLevel counterparty privileged _ =>
    { permissionType := .protocolPermission
      originator := normalizeOriginator kit.lowercase originator
      privileged := some (privileged && mgr.config.differentiatePrivilegedOperations)
      protocol := some name
      securityLevel := some securityLevel
      counterparty := some (if securityLevel = 1 then "" else counterparty) }
  | .basket originator basketName _ =>
    { permissionType := .basketAccess
      originator := normalizeOriginator kit.lowercase originator
      basketName := some basketName }
  | .certificate originator certType _ verifier privileged _ =>
    { permissionType := .certificateAccess
      originator := normalizeOriginator kit.lowercase originator
      privileged := some (privileged && mgr.config.differentiatePrivilegedOperations)
      certType := some certType
      verifier }

end PermissionCheck

/-- The permission that a query asks for: its request, apart from the words and the certificate
fields. -/
def Query.asked (q : Query) : PermissionRequest :=
  { q.request with description := none, certFields := none }

/-- Two queries are for the same permission of the same originator. -/
structure Query.SamePermission (q q' : Query) : Prop where
  type : q.permissionType = q'.permissionType
  originator : q.originator = q'.originator
  asked : q.asked = q'.asked

/-! ## What a check looks up -/

section Checks

variable {kit : Kit} {mgr : Manager} {c c' : PermissionCheck} {q q' : Query}

structure PermissionCheck.Asks (kit : Kit) (mgr : Manager) (c : PermissionCheck) (q : Query) :
    Prop where
  key : q.cacheKey = c.permissionType.debug ++ ":" ++ joined (c.fields kit mgr)
  type : q.permissionType = c.permissionType
  originator : q.originator = normalizeOriginator kit.lowercase c.originator
  asked : q.asked = c.asked kit mgr

theorem PermissionCheck.asks (h : c.decision kit mgr = .resolve q) : c.Asks kit mgr q := by
  cases c with
  | protocol originator name securityLevel counterparty privileged usage =>
    simp only [decision, protocolDecision] at h
    iterate 5
      split at h
      · cases h
    cases h
    refine ⟨?_, rfl, rfl, rfl⟩
    simp only [fields, joined_cons_cons, joined_singleton, buildCacheKey, permissionType,
      String.append_assoc]
  | basket originator basketName usage =>
    simp only [decision, basketDecision] at h
    iterate 3
      split at h
      · cases h
    cases h
    refine ⟨?_, rfl, rfl, rfl⟩
    simp only [fields, joined_cons_cons, joined_singleton, buildCacheKey, permissionType,
      String.append_assoc]
  | certificate originator certType certFields verifier privileged usage =>
    simp only [decision, certificateDecision] at h
    iterate 2
      split at h
      · cases h
    cases h
    refine ⟨?_, rfl, rfl, rfl⟩
    simp only [fields, joined_cons_cons, joined_singleton, buildCacheKey, permissionType,
      String.append_assoc]

theorem PermissionCheck.asked_originator (c : PermissionCheck) :
    (c.asked kit mgr).originator = normalizeOriginator kit.lowercase c.originator := by
  cases c <;> rfl

theorem PermissionCheck.asked_type (c : PermissionCheck) :
    (c.asked kit mgr).permissionType = c.permissionType := by
  cases c <;> rfl

/-- The request says the type and the originator too. -/
theorem samePermission_iff (hq : c.Asks kit mgr q) (hq' : c'.Asks kit mgr q') :
    q.SamePermission q' ↔ c.asked kit mgr = c'.asked kit mgr := by
  constructor
  · intro h
    rw [← hq.asked, ← hq'.asked, h.asked]
  · intro h
    refine ⟨?_, ?_, ?_⟩
    · rw [hq.type, hq'.type, ← c.asked_type, h, c'.asked_type]
    · rw [hq.originator, hq'.originator, ← c.asked_originator, h, c'.asked_originator]
    · rw [hq.asked, hq'.asked, h]

theorem toString_nat_inj {m n : Nat} (h : toString m = toString n) : m = n := by
  have hdigits := congrArg (Nat.ofDigitChars 10 · 0) (congrArg String.toList h)
  simpa using hdigits

theorem toString_bool_inj {a b : Bool} (h : toString a = toString b) : a = b := by
  revert a b
  decide +kernel

/-- The fields and the verifier determine what is asked. -/
theorem PermissionCheck.asked_eq_iff (htype : c.permissionType = c'.permissionType) :
    c.asked kit mgr = c'.asked kit mgr ↔
      c.fields kit mgr = c'.fields kit mgr ∧ c.verifier = c'.verifier := by
  cases c <;> cases c' <;> try cases htype
  case protocol.protocol =>
    simp only [asked, fields, verifier, PermissionRequest.mk.injEq, Option.some.injEq,
      List.cons.injEq, true_and, and_true]
    constructor
    · rintro ⟨horiginator, hprivileged, rfl, rfl, hcounterparty⟩
      exact ⟨horiginator, rfl, rfl, hcounterparty, by rw [hprivileged]⟩
    · rintro ⟨horiginator, rfl, hlevel, hcounterparty, hprivileged⟩
      exact ⟨horiginator, toString_bool_inj hprivileged, rfl, toString_nat_inj hlevel, hcounterparty⟩
  case basket.basket => simp [asked, fields, verifier]
  case certificate.certificate =>
    simp only [asked, fields, verifier, PermissionRequest.mk.injEq, Option.some.injEq,
      List.cons.injEq, true_and, and_true]
    constructor
    · rintro ⟨horiginator, hprivileged, rfl, rfl⟩
      exact ⟨⟨horiginator, rfl, rfl, by rw [hprivileged]⟩, rfl⟩
    · rintro ⟨⟨horiginator, rfl, -, hprivileged⟩, rfl⟩
      exact ⟨horiginator, toString_bool_inj hprivileged, rfl, rfl⟩

/-! ## Equal keys -/

theorem colon_notMem_debug (type : PermissionType) : ':' ∉ type.debug.toList := by
  cases type <;> decide +kernel

theorem debug_inj {type type' : PermissionType} (h : type.debug = type'.debug) : type = type' := by
  revert h
  cases type <;> cases type' <;> decide +kernel

/-- The names of the types have no colon, so that equal keys are of one type. -/
theorem key_eq_iff {type type' : PermissionType} {rest rest' : String} :
    type.debug ++ ":" ++ rest = type'.debug ++ ":" ++ rest' ↔ type = type' ∧ rest = rest' := by
  have hcolon : ∀ (type : PermissionType) (x t : String), type.debug ≠ x ++ ":" ++ t := by
    intro type x t h
    refine colon_notMem_debug type ?_
    rw [h]
    simp
  constructor
  · intro h
    rcases append_colon_eq_iff.mp h with ⟨htype, hrest⟩ | ⟨t, htype, -⟩ | ⟨t, htype, -⟩
    · exact ⟨debug_inj htype, hrest⟩
    · exact absurd htype (hcolon _ _ _)
    · exact absurd htype (hcolon _ _ _)
  · rintro ⟨rfl, rfl⟩
    rfl

theorem PermissionCheck.length_fields (htype : c.permissionType = c'.permissionType) :
    (c.fields kit mgr).length = (c'.fields kit mgr).length := by
  cases c <;> cases c' <;> first | rfl | cases htype

/-- When two checks use one key. -/
theorem PermissionCheck.cacheKey_eq_iff (hq : c.Asks kit mgr q) (hq' : c'.Asks kit mgr q') :
    q.cacheKey = q'.cacheKey ↔ c.permissionType = c'.permissionType ∧
      (c.fields kit mgr = c'.fields kit mgr ∨ Moved (c.fields kit mgr) (c'.fields kit mgr) ∨
        Moved (c'.fields kit mgr) (c.fields kit mgr)) := by
  rw [hq.key, hq'.key, key_eq_iff]
  exact and_congr_right fun htype => joined_eq_iff (length_fields htype)

/-- Two checks that share a key are for the same permission exactly when they are not confused. -/
theorem samePermission_of_cacheKey_iff (h : c.decision kit mgr = .resolve q)
    (h' : c'.decision kit mgr = .resolve q') :
    (q.cacheKey = q'.cacheKey → q.SamePermission q') ↔ ¬c.Confused kit mgr c' := by
  have hq := c.asks h
  have hq' := c'.asks h'
  rw [samePermission_iff hq hq', c.cacheKey_eq_iff hq hq']
  constructor
  · rintro hsame ⟨htype, hmoved | hmoved | ⟨hfields, hverifier⟩⟩
    · have hasked := hsame ⟨htype, .inr (.inl hmoved)⟩
      exact hmoved.ne ((PermissionCheck.asked_eq_iff htype).mp hasked).1
    · have hasked := hsame ⟨htype, .inr (.inr hmoved)⟩
      exact hmoved.ne ((PermissionCheck.asked_eq_iff htype).mp hasked).1.symm
    · have hasked := hsame ⟨htype, .inl hfields⟩
      exact hverifier ((PermissionCheck.asked_eq_iff htype).mp hasked).2
  · rintro hconfused ⟨htype, hfields | hmoved | hmoved⟩
    · refine (PermissionCheck.asked_eq_iff htype).mpr ⟨hfields, ?_⟩
      by_contra hverifier
      exact hconfused ⟨htype, .inr (.inr ⟨hfields, hverifier⟩)⟩
    · exact absurd ⟨htype, .inl hmoved⟩ hconfused
    · exact absurd ⟨htype, .inr (.inl hmoved)⟩ hconfused

end Checks

/-! ## Two originators, one key -/

/-- A basket whose name begins like a port. -/
def portBasket : PermissionCheck := .basket "app.example" "8080:coins" .listing

/-- A basket of the application at that port. -/
def portOriginator : PermissionCheck := .basket "app.example:8080" "coins" .listing

def coinsQuery (originator basketName : String) : Query where
  cacheKey := "BasketAccess:app.example:8080:coins"
  permissionType := .basketAccess
  originator := originator
  filters := { basketName := some basketName }
  request :=
    { permissionType := .basketAccess
      originator := originator
      basketName := some basketName
      description := some ("Basket access for \"" ++ basketName ++ "\" (listing)") }
  denialMsg := "Permission denied: basket access required for \"" ++ basketName ++
    "\" (originator: " ++ originator ++ ")"

theorem decision_portBasket :
    portBasket.decision sampleKit exampleManager =
      .resolve (coinsQuery "app.example" "8080:coins") := by
  decide +kernel

theorem decision_portOriginator :
    portOriginator.decision sampleKit exampleManager =
      .resolve (coinsQuery "app.example:8080" "coins") := by
  decide +kernel

theorem samePermission_of_cacheKey_iff_ports :
    ((coinsQuery "app.example" "8080:coins").cacheKey =
        (coinsQuery "app.example:8080" "coins").cacheKey →
      (coinsQuery "app.example" "8080:coins").SamePermission (coinsQuery "app.example:8080" "coins")) ↔
      ¬portBasket.Confused sampleKit exampleManager portOriginator :=
  samePermission_of_cacheKey_iff decision_portBasket decision_portOriginator

theorem samePermission_not_ports :
    ¬∀ (kit : Kit) (mgr : Manager) (c c' : PermissionCheck) (q q' : Query),
      c.decision kit mgr = .resolve q → c'.decision kit mgr = .resolve q' →
        q.cacheKey = q'.cacheKey → q.SamePermission q' := by
  intro h
  have hsame := h sampleKit exampleManager portBasket portOriginator _ _ decision_portBasket
    decision_portOriginator rfl
  have horiginator : "app.example" = "app.example:8080" := hsame.originator
  exact absurd horiginator (by decide +kernel)

end WalletToolbox.Permissions
