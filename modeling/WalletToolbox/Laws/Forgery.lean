import WalletToolbox.Laws.Checks

/-! # Forged permissions

While the user never grants, an application passes a check only with a token that the user has not
made.
Every method but `internalize_action` keeps the outputs of applications out of the baskets of
tokens. -/

namespace WalletToolbox.Permissions

open WalletToolbox.Lib
open WalletToolbox.Storage (Bytes)

variable {kit : Kit} {mgr : Manager} {a : Answers} {originator : String} {s s' : State} {q : Query}
  {type : PermissionType}

/-! ## States without forged permissions -/

/-- No output is in a basket of tokens, those for spending apart. -/
def Inner.Tokenless (inner : Inner) : Prop :=
  ∀ output ∈ inner.outputs, ∀ type ≠ .spendingAuthorization, output.basket ≠ some (basketForType type)

/-- The recent grants of a cache are for spending, and its answers are denials. -/
structure PermissionCache.Ungranted (c : PermissionCache) : Prop where
  answers : ∀ key entry, c.manifestCache.lookup key = some entry → entry.granted = false
  grants : ∀ key whenGranted, c.recentGrants.lookup key = some whenGranted →
    ∃ originator details, key = buildCacheKey .spendingAuthorization originator details

structure Unforged (s : State) : Prop where
  inner : s.inner.Tokenless
  cache : s.cache.Ungranted

theorem Inner.Tokenless.tokens (h : s.inner.Tokenless) (hq : q.permissionType ≠ .spendingAuthorization)
    (now : Nat) : q.tokens kit now s.inner = [] := by
  have hlisted : ∀ originTag, s.inner.listOutputs (basketForType q.permissionType)
      (("originator " ++ originTag) :: q.filters.tags q.permissionType) = [] := by
    intro originTag
    rw [Inner.listOutputs, List.filter_eq_nil_iff.mpr, List.take_nil]
    intro output hmem hlisted
    exact h output hmem _ hq (of_decide_eq_true hlisted).1
  refine collectTokens_eq_nil fun output hmem => ?_
  obtain ⟨originTag, -, hmem⟩ := List.mem_flatMap.mp hmem
  rw [hlisted originTag] at hmem
  cases hmem

namespace PermissionCache.Ungranted

variable {c : PermissionCache} {now : Nat} {key : String}

theorem checkCache (h : c.Ungranted) (now : Nat) (key : String) :
    (c.checkCache now key).1 ≠ some true ∧ (c.checkCache now key).2.Ungranted := by
  unfold PermissionCache.checkCache
  split
  next entry hentry =>
    split
    · refine ⟨fun htrue => ?_, h⟩
      have := h.answers key entry hentry
      simp_all
    · refine ⟨by simp, { h with answers := fun key' entry' hentry' => ?_ }⟩
      by_cases hkey : key' = key
      · subst hkey
        rw [AList.lookup_erase] at hentry'
        cases hentry'
      · rw [AList.lookup_erase_ne hkey] at hentry'
        exact h.answers key' entry' hentry'
  next => exact ⟨by simp, h⟩

theorem isRecentGrant (h : c.Ungranted)
    (hkey : ∀ originator details, key ≠ buildCacheKey .spendingAuthorization originator details) :
    c.isRecentGrant now key = false := by
  unfold PermissionCache.isRecentGrant
  split
  next whenGranted hgrant =>
    obtain ⟨originator, details, hspending⟩ := h.grants key whenGranted hgrant
    exact (hkey originator details hspending).elim
  next => rfl

theorem tryDeduplicate (h : c.Ungranted) (key : String) : (c.tryDeduplicate key).2.Ungranted := by
  unfold PermissionCache.tryDeduplicate
  split
  · exact h
  · exact ⟨h.answers, h.grants⟩

theorem completeRequest (h : c.Ungranted) (result : Except String Bool) :
    (c.completeRequest key result).Ungranted := by
  unfold PermissionCache.completeRequest PermissionCache.takeRequest
  cases c.activeRequests.lookup key with
  | none => exact h
  | some request => exact ⟨h.answers, h.grants⟩

theorem insertDenial (h : c.Ungranted) (ttl : Nat) : (c.insertCache now key false ttl).Ungranted where
  answers := by
    intro key' entry hentry
    unfold PermissionCache.insertCache at hentry
    by_cases hkey : key' = key
    · subst hkey
      rw [AList.lookup_insert] at hentry
      cases hentry
      rfl
    · rw [AList.lookup_insert_ne hkey] at hentry
      exact h.answers key' entry hentry
  grants := h.grants

theorem recordSpending (h : c.Ungranted) (o details : String) :
    (c.recordRecentGrant now (buildCacheKey .spendingAuthorization o details)).Ungranted where
  answers := h.answers
  grants := by
    intro key' whenGranted hgrant
    unfold PermissionCache.recordRecentGrant at hgrant
    by_cases hkey : key' = buildCacheKey .spendingAuthorization o details
    · exact ⟨o, details, hkey⟩
    · rw [AList.lookup_insert_ne hkey] at hgrant
      exact h.grants key' whenGranted hgrant

end PermissionCache.Ungranted

/-! ## Every check refuses -/

theorem askUser_refuses (hnever : a.NeverGrants) : (askUser kit a q).Keeps Unforged False := by
  intro s r s' hs h
  obtain ⟨reason, hdeny⟩ := hnever q.request
  simp only [askUser, hdeny, Option.some.injEq, Prod.mk.injEq] at h
  obtain ⟨rfl, rfl⟩ := h
  exact ⟨⟨hs.inner, (hs.cache.insertDenial _).completeRequest _⟩, fun hr => nomatch hr⟩

theorem lookupOrAsk_refuses (hnever : a.NeverGrants) (hq : q.Guarded) :
    (lookupOrAsk kit a q).Keeps Unforged False := by
  intro s r s' hs h
  unfold lookupOrAsk at h
  split at h
  · cases h
    exact ⟨⟨hs.inner, hs.cache.completeRequest _⟩, fun hr => nomatch hr⟩
  · rw [hs.inner.tokens hq.type, if_neg (by simp)] at h
    exact askUser_refuses hnever s r s' hs h

/-- The cache remembers no grant, no token answers, and the user refuses. -/
theorem resolvePermission_refuses (hnever : a.NeverGrants) (hq : q.Guarded) :
    (resolvePermission kit a q).Keeps Unforged False := by
  intro s r s' hs h
  obtain ⟨hnotTrue, hcache⟩ := hs.cache.checkCache a.now q.cacheKey
  unfold resolvePermission at h
  split at h
  next hchecked => exact (hnotTrue (by rw [hchecked])).elim
  next cache hchecked =>
    cases h
    rw [hchecked] at hcache
    exact ⟨⟨hs.inner, hcache⟩, fun hr => nomatch hr⟩
  next cache hchecked =>
    rw [hchecked] at hcache
    have hrecent : cache.isRecentGrant a.now q.cacheKey = false := by
      obtain ⟨o, d, hkey⟩ := hq.key
      refine hcache.isRecentGrant fun o' d' => ?_
      rw [hkey]
      exact buildCacheKey_spending hq.type
    rw [hrecent, if_neg Bool.false_ne_true] at h
    have hdedup := hcache.tryDeduplicate q.cacheKey
    split at h
    · cases h
    next cache' hproceed =>
      rw [hproceed] at hdedup
      exact lookupOrAsk_refuses hnever hq { s with cache := cache' } r s' ⟨hs.inner, hdedup⟩ h

theorem Decision.Guarded.refuses {d : Decision} (hd : d.Guarded) (hnever : a.NeverGrants) :
    (d.check kit a).Keeps Unforged False := by
  cases d with
  | pass => exact hd.elim
  | refuse e => exact .refuse e
  | resolve query => exact resolvePermission_refuses hnever hd

/-- What the checks of an application find: the default configuration and an originator that is not
the admin. -/
structure Application (kit : Kit) (mgr : Manager) (a : Answers) (originator : String) : Prop where
  config : mgr.config = {}
  notAdmin : mgr.isAdmin kit (normalizeOriginator kit.lowercase originator) = false
  never : a.NeverGrants

namespace Application

variable (app : Application kit mgr a originator)
include app

theorem protocol_refuses {protocol counterparty : String} {level : Nat} {privileged : Bool}
    {usage : ProtocolUsage} (hlevel : level ≠ 0)
    (hmodule : ∀ scheme, detectPModuleScheme protocol = some scheme → scheme ∉ mgr.permissionModules) :
    (ensureProtocolPermission kit mgr a originator protocol level counterparty privileged
      usage).Keeps Unforged False := by
  refine Decision.Guarded.refuses ?_ app.never
  have hscheme : (detectPModuleScheme protocol).any (mgr.permissionModules.contains ·) = false := by
    cases hdetected : detectPModuleScheme protocol with
    | none => rfl
    | some scheme => simp [hmodule scheme hdetected]
  simp only [protocolDecision, app.notAdmin, app.config,
    PermissionsManagerConfig.requiresProtocolCheck_default, hscheme, Bool.false_eq_true, if_false,
    if_neg hlevel, Bool.not_true]
  split
  · trivial
  · exact ⟨PermissionType.noConfusion, ⟨_, _, rfl⟩, rfl⟩

/-- Also at level zero, or with a module. -/
theorem protocol_keeps (protocol : String) (level : Nat) (counterparty : String) (privileged : Bool)
    (usage : ProtocolUsage) :
    (ensureProtocolPermission kit mgr a originator protocol level counterparty privileged
      usage).Keeps Unforged True := by
  unfold ensureProtocolPermission
  cases hdecision : protocolDecision kit mgr originator protocol level counterparty privileged usage with
  | pass => exact .pass
  | refuse e => exact .refuse e
  | resolve query =>
    have hquery : query.Guarded := by
      simp only [protocolDecision] at hdecision
      split at hdecision
      · cases hdecision
      split at hdecision
      · cases hdecision
      split at hdecision
      · cases hdecision
      split at hdecision
      · cases hdecision
      split at hdecision
      · cases hdecision
      cases hdecision
      exact ⟨PermissionType.noConfusion, ⟨_, _, rfl⟩, rfl⟩
    exact (resolvePermission_refuses app.never hquery).weaken False.elim

theorem basket_refuses {basketName : String} {usage : BasketUsage} :
    (ensureBasketAccess kit mgr a originator basketName usage).Keeps Unforged False := by
  refine Decision.Guarded.refuses ?_ app.never
  simp only [basketDecision, app.notAdmin, app.config,
    PermissionsManagerConfig.requiresBasketCheck_default, Bool.false_eq_true, if_false, Bool.not_true]
  split
  · trivial
  · exact ⟨PermissionType.noConfusion, ⟨_, _, rfl⟩, rfl⟩

theorem certificate_refuses {certType : String} {certFields : Option (List String)}
    {verifier : Option String} {privileged : Bool} {usage : CertificateUsage} :
    (ensureCertificateAccess kit mgr a originator certType certFields verifier privileged
      usage).Keeps Unforged False := by
  refine Decision.Guarded.refuses ?_ app.never
  simp only [certificateDecision, app.notAdmin, app.config,
    PermissionsManagerConfig.requiresCertificateCheck_default, Bool.false_eq_true, if_false,
    Bool.not_true]
  exact ⟨PermissionType.noConfusion, ⟨_, _, rfl⟩, rfl⟩

theorem label_keeps (labels : List String) :
    (ensureLabelAccess kit mgr a originator labels).Keeps Unforged True := by
  unfold ensureLabelAccess
  refine .ite (fun _ => .pass) fun _ => .ite (fun _ => .pass) fun _ => ?_
  have hlabels : ∀ p ∈ labels.map fun label =>
      if isAdminLabel label then
        Check.refuse (.notImplemented ("Label \"" ++ label ++ "\" is admin-only."))
      else ensureProtocolPermission kit mgr a originator ("action label " ++ label) 1 "self" false
        .generic, p.Keeps Unforged True := by
    intro p hmem
    obtain ⟨label, -, rfl⟩ := List.mem_map.mp hmem
    exact .ite (fun _ => .refuse _) fun _ => app.protocol_keeps _ _ _ _ _
  exact (Check.Keeps.all hlabels).weaken fun _ => trivial

/-- A spending check leaves at most a recent grant for spending. -/
theorem spending_keeps (amount : Nat) :
    (ensureSpendingAuthorization kit mgr a originator amount).Keeps Unforged True := by
  intro s r s' hs h
  refine ⟨?_, fun _ => trivial⟩
  rcases ensureSpendingAuthorization_state (app.never _) h with rfl | hcache
  · exact hs
  · exact hcache ▸ ⟨hs.inner, hs.cache.recordSpending _ _⟩

/-- The baskets are checked first, so an action that passes has none. -/
theorem createAction_keeps (args : CreateActionArgs) :
    (createActionChecks kit mgr a originator args).Keeps Unforged
      (∀ output ∈ args.outputs, output.basket = none) := by
  have hbaskets : ∀ p ∈ args.outputs.filterMap fun output =>
      output.basket.map fun basket => ensureBasketAccess kit mgr a originator basket .insertion,
      p.Keeps Unforged False := by
    intro p hmem
    obtain ⟨output, -, hbasket⟩ := List.mem_filterMap.mp hmem
    obtain ⟨basket, -, rfl⟩ := Option.map_eq_some_iff.mp hbasket
    exact app.basket_refuses
  unfold createActionChecks
  refine (Check.Keeps.all fun p hmem => (hbaskets p hmem).weaken False.elim).andThen fun hnone => ?_
  have hnil := List.eq_nil_iff_forall_not_mem.mpr fun p hmem => hnone p hmem False (hbaskets p hmem)
  have hall : ∀ output ∈ args.outputs, output.basket = none := by
    intro output hmem
    exact Option.map_eq_none_iff.mp (List.filterMap_eq_nil_iff.mp hnil output hmem)
  refine .ite (fun _ => ?_) fun _ => ?_
  · exact (app.spending_keeps _).weaken fun _ => hall
  · exact Check.Keeps.pass.weaken fun _ => hall

theorem checks_keep (call : WalletCall) : (call.checks kit mgr a originator).Keeps Unforged True := by
  have hprotocol := app.protocol_keeps
  have hkey : ∀ args usage, (keyCheck kit mgr a originator args usage).Keeps Unforged True :=
    fun args usage => hprotocol _ _ _ _ _
  cases call with
  | createAction args => exact (app.createAction_keeps args).weaken fun _ => trivial
  | listActions labels => exact .ite (fun _ => .pass) fun _ => app.label_keeps labels
  | listOutputs | relinquishOutput => exact app.basket_refuses.weaken False.elim
  | getPublicKey args =>
    cases args with
    | none => exact .pass
    | some args => exact hkey args _
  | revealCounterpartyKeyLinkage => exact hprotocol _ _ _ _ _
  | revealSpecificKeyLinkage args | encrypt args | decrypt args | createHmac args | verifyHmac args
  | createSignature args | verifySignature args => exact hkey args _
  | acquireCertificate | listCertificates | relinquishCertificate =>
    exact .ite (fun _ => hprotocol _ _ _ _ _) fun _ => .pass
  | proveCertificate => exact app.certificate_refuses.weaken False.elim
  | discoverByIdentityKey | discoverByAttributes =>
    exact .ite (fun _ => app.certificate_refuses.weaken False.elim) fun _ => .pass
  | _ => exact .pass

end Application

/-! ## Every call -/

namespace Inner.Tokenless

variable {inner : Inner}

theorem subset (h : inner.Tokenless) {outputs : List InnerOutput} {actions : List InnerAction}
    (hsubset : ∀ output ∈ outputs, output ∈ inner.outputs) :
    ({ outputs, actions } : Inner).Tokenless :=
  fun output hmem => h output (hsubset output hmem)

theorem createAction (h : inner.Tokenless) {outputs : List CreateActionOutput}
    (hnone : ∀ output ∈ outputs, output.basket = none) (txid : String) (satoshis : Int)
    (labels : List String) : (inner.createAction txid satoshis outputs labels).Tokenless := by
  intro output hmem type htype
  rcases List.mem_append.mp hmem with hold | hnew
  · exact h output hold type htype
  · obtain ⟨⟨requested, index⟩, hindexed, rfl⟩ := List.mem_map.mp hnew
    have hrequested : requested ∈ outputs := by
      obtain ⟨-, -, hget⟩ := List.mem_zipIdx hindexed
      exact hget ▸ List.getElem_mem _
    simp [hnone requested hrequested]

theorem abortAction (h : inner.Tokenless) (txid : String) : (inner.abortAction txid).Tokenless :=
  h.subset fun _ hmem => (List.mem_filter.mp hmem).1

theorem relinquishOutput (h : inner.Tokenless) (basket : String) (outpoint : Outpoint) :
    (inner.relinquishOutput basket outpoint).Tokenless := by
  intro output hmem type htype
  obtain ⟨stored, hstored, rfl⟩ := List.mem_map.mp hmem
  split
  · simp
  · exact h stored hstored type htype

end Inner.Tokenless

/-- A call that inserts no output into a basket of tokens, those for spending apart. -/
def WalletCall.InsertsNoToken : WalletCall → Prop
  | .internalizeAction args =>
    ∀ output ∈ args.outputs, ∀ basket tags, output.remittance = .basketInsertion basket tags →
      ∀ type ≠ .spendingAuthorization, basket ≠ basketForType type
  | _ => True

theorem Inner.Tokenless.internalizeAction {inner : Inner} (h : inner.Tokenless)
    {args : InternalizeActionArgs} (hargs : (WalletCall.internalizeAction args).InsertsNoToken)
    (satoshis : Int) : (inner.internalizeAction satoshis args).Tokenless := by
  intro output hmem type htype
  rcases List.mem_append.mp hmem with hold | hnew
  · exact h output hold type htype
  · obtain ⟨inserted, hinserted, hrow⟩ := List.mem_filterMap.mp hnew
    obtain ⟨⟨amount, script⟩, -, rfl⟩ := Option.map_eq_some_iff.mp hrow
    cases hremittance : inserted.remittance with
    | walletPayment =>
      simp only [ne_eq, Option.some.injEq]
      cases type <;> decide +kernel
    | basketInsertion basket tags =>
      have hbasket := hargs inserted hinserted basket tags hremittance type htype
      simpa using hbasket

theorem delegate_keeps {reply : Except SdkError Reply} {effect : Reply → Inner → Inner}
    (h : ∀ reply inner, inner.Tokenless → (effect reply inner).Tokenless) :
    (delegate reply effect).Keeps Unforged True := by
  intro s r s' hs hdelegate
  unfold delegate at hdelegate
  split at hdelegate
  · cases hdelegate
    exact ⟨⟨h _ _ hs.inner, hs.cache⟩, fun _ => trivial⟩
  · cases hdelegate
    exact ⟨hs, fun _ => trivial⟩

theorem delegateCreateAction_keeps {reply : Except SdkError Reply} {args : CreateActionArgs}
    (hnone : ∀ output ∈ args.outputs, output.basket = none) :
    (delegateCreateAction a reply originator args).Keeps Unforged True := by
  intro s r s' hs h
  refine ⟨?_, fun _ => trivial⟩
  unfold delegateCreateAction at h
  split at h
  · cases h; exact hs
  · cases h; exact hs
  next reply _ =>
    have hcreated := hs.inner.createAction hnone reply.txid reply.satoshis
      (args.labels.getD [] ++ accountLabels originator a.month)
    dsimp only at h
    split at h
    · cases h; exact ⟨hcreated, hs.cache⟩
    · cases h
      refine ⟨?_, hs.cache⟩
      dsimp only
      split
      · exact hcreated.abortAction _
      · exact hcreated

/-- Whatever an application calls leaves no forged permission behind. -/
theorem Application.serve_keeps (app : Application kit mgr a originator) {call : WalletCall}
    (hcall : call.InsertsNoToken) (reply : Except SdkError Reply) :
    (call.serve kit mgr a originator reply).Keeps Unforged True := by
  have hchecks := app.checks_keep call
  cases call with
  | createAction args =>
    exact (app.createAction_keeps args).andThen fun hnone => delegateCreateAction_keeps hnone
  | abortAction txid => exact hchecks.andThen fun _ => delegate_keeps fun _ _ h => h.abortAction txid
  | internalizeAction args =>
    exact hchecks.andThen fun _ => delegate_keeps fun _ _ h => h.internalizeAction hcall _
  | relinquishOutput basket output =>
    exact hchecks.andThen fun _ => delegate_keeps fun _ _ h => h.relinquishOutput basket output
  | _ => exact hchecks.andThen fun _ => delegate_keeps fun _ _ h => h

theorem Check.Keeps.not_succeeds {p : Check} (h : p.Keeps Unforged False) (hs : Unforged s) :
    ¬p.Succeeds s := by
  rintro ⟨s', hp⟩
  exact (h s _ s' hs hp).2 rfl

/-- The step condition of the runs below. -/
def noTokenInserted (_ : State) (r : Request) : Prop := r.call.InsertsNoToken

theorem reaches_unforged (hconfig : mgr.config = {}) {inner : Inner} (hinner : inner.Tokenless)
    (hs : ((applications kit mgr).startingAt { inner }).Reaches noTokenInserted s) : Unforged s := by
  refine hs.inv (I := Unforged) ⟨hinner, ⟨fun _ _ h => ?_, fun _ _ h => ?_⟩⟩ ?_
  · cases h
  · cases h
  · intro s r hs henabled hinserts
    have app : Application kit mgr r.answers r.orig := ⟨hconfig, henabled.1, henabled.2⟩
    have hkeeps := app.serve_keeps hinserts r.reply
    change Unforged (r.next kit mgr s)
    unfold Request.next
    split
    next result s' hserve => exact (hkeeps s result s' hs hserve).1
    next => exact hs

/-- No permission is forged: in every run of applications that insert nothing into the baskets of
tokens, no check of an application succeeds. -/
theorem permissions_not_forged (hconfig : mgr.config = {}) {inner : Inner} (hinner : inner.Tokenless)
    (hs : ((applications kit mgr).startingAt { inner }).Reaches noTokenInserted s)
    (hnotAdmin : mgr.isAdmin kit (normalizeOriginator kit.lowercase originator) = false)
    (hnever : a.NeverGrants) :
    (∀ protocol level counterparty privileged usage, 0 < level →
      (∀ scheme, detectPModuleScheme protocol = some scheme → scheme ∉ mgr.permissionModules) →
      ¬(ensureProtocolPermission kit mgr a originator protocol level counterparty privileged
        usage).Succeeds s) ∧
    (∀ basketName usage, ¬(ensureBasketAccess kit mgr a originator basketName usage).Succeeds s) ∧
    ∀ certType certFields verifier privileged usage,
      ¬(ensureCertificateAccess kit mgr a originator certType certFields verifier privileged
        usage).Succeeds s := by
  have app : Application kit mgr a originator := ⟨hconfig, hnotAdmin, hnever⟩
  have hunforged := reaches_unforged hconfig hinner hs
  refine ⟨?_, ?_, ?_⟩
  · intro protocol level counterparty privileged usage hlevel hmodule
    exact (app.protocol_refuses hlevel.ne' hmodule).not_succeeds hunforged
  · intro basketName usage
    exact app.basket_refuses.not_succeeds hunforged
  · intro certType certFields verifier privileged usage
    exact app.certificate_refuses.not_succeeds hunforged

/-! ## A forged token -/

theorem noCallback_neverGrants : noCallback.NeverGrants := fun _ => ⟨_, rfl⟩

/-- An application inserts an output that its own transaction carries: a token script for the basket
`todo`, with fields in plain text. -/
def insertInto (basket : String) : Request where
  originator := some "app.example"
  call := .internalizeAction
    { txid := "6d3f2c1ab9e8475d60718293a4b5c6d7e8f9010203040506070809aabbccddee"
      txOutputs := [(1, sampleKit.lockPushDrop
        (["app.example", "0", "todo"].map fun field => field.toUTF8.toList))]
      outputs := [{ outputIndex := 0
                    remittance := .basketInsertion basket ["originator app.example", "basket todo"] }]
      labels := [] }
  answers := noCallback
  reply := .ok { txid := "", satoshis := 1, signable := none, aborts := false }

theorem insertInto_enabled (basket : String) :
    (applications sampleKit exampleManager).Enabled {} (insertInto basket) :=
  ⟨by change exampleManager.isAdmin sampleKit (normalizeOriginator _ "app.example") = false
      decide +kernel, noCallback_neverGrants⟩

/-- An insertion into another basket gives nothing. -/
theorem permissions_not_forged_todo :
    ¬(ensureBasketAccess sampleKit exampleManager noCallback "app.example" "todo"
      .listing).Succeeds ((applications sampleKit exampleManager).next (insertInto "todo") {}) := by
  have hinserts : noTokenInserted {} (insertInto "todo") := by
    rintro output hmem basket tags hremittance type -
    rw [List.mem_singleton.mp hmem] at hremittance
    cases hremittance
    cases type <;> decide +kernel
  have hs := System.startingAt_step (insertInto_enabled "todo") hinserts
  exact (permissions_not_forged rfl (fun _ hmem => (List.not_mem_nil hmem).elim) hs
    (by decide +kernel) noCallback_neverGrants).2.1 "todo" .listing

/-- Inserted into the basket of tokens, the same output lets the application through. -/
theorem forged_token_accepted :
    ∃ s, ((applications sampleKit exampleManager).startingAt {}).Reaches (fun _ _ => True) s ∧
      exampleManager.isAdmin sampleKit (normalizeOriginator sampleKit.lowercase "app.example") = false ∧
      noCallback.NeverGrants ∧
      (ensureBasketAccess sampleKit exampleManager noCallback "app.example" "todo" .listing).Succeeds s :=
  ⟨_, System.startingAt_step (insertInto_enabled basketDbap) trivial, by decide +kernel,
    noCallback_neverGrants, by decide +kernel⟩

end WalletToolbox.Permissions
