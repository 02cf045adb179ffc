import WalletToolbox.Laws.Checks

/-! # The monthly spending cap

`create_action` writes an originator's actions to the account of the month by their labels, and a
spending check adds the account to the amount before it compares it with a token.
The account is what the check knows: a call that is let through and not on it escapes the cap. -/

namespace WalletToolbox.Permissions

open WalletToolbox.Lib

variable {kit : Kit} {mgr : Manager} {a : Answers} {originator month : String} {inner : Inner}
  {cap : Nat}

/-! ## The account of a month -/

/-- The actions that carry some labels. -/
def Inner.labelled (inner : Inner) (labels : List String) : List InnerAction :=
  inner.actions.filter fun action => ∀ label ∈ labels, label ∈ action.labels

/-- What some actions have cost. -/
def cost (actions : List InnerAction) : Int := (actions.map fun action => -action.satoshis).sum

theorem cost_append (l l' : List InnerAction) : cost (l ++ l') = cost l + cost l' := by
  simp [cost]

theorem cost_nonneg {actions : List InnerAction} (h : ∀ action ∈ actions, action.satoshis ≤ 0) :
    0 ≤ cost actions := by
  induction actions with
  | nil => exact le_rfl
  | cons action rest ih =>
    have hrest := ih fun action hmem => h action (List.mem_cons_of_mem _ hmem)
    have haction := h action List.mem_cons_self
    simp only [cost, List.map_cons, List.sum_cons] at hrest ⊢
    omega

/-- The actions that a query of the month adds up, one that has the labels of both forms of the
originator twice. -/
def account (kit : Kit) (originator month : String) (inner : Inner) : List InnerAction :=
  (buildOriginatorLookupValues kit.lowercase originator).flatMap fun origin =>
    inner.labelled (accountLabels origin month)

/-- The total of a query stays that of the integers while it is small. -/
theorem foldl_wrapInt64 {actions : List InnerAction} (h : ∀ action ∈ actions, action.satoshis ≤ 0)
    {total : Int} (htotal : 0 ≤ total) (hsmall : total + cost actions < 2 ^ 63) :
    actions.foldl (fun total action => wrapInt64 (total - action.satoshis)) total =
      total + cost actions := by
  induction actions generalizing total with
  | nil => simp [cost]
  | cons action rest ih =>
    have hrest := fun action hmem => h action (List.mem_cons_of_mem _ hmem)
    have haction := h action List.mem_cons_self
    have hnonneg := cost_nonneg hrest
    have hcons : cost (action :: rest) = -action.satoshis + cost rest := by
      simp [cost]
    rw [hcons] at hsmall ⊢
    have hwrap : wrapInt64 (total - action.satoshis) = total - action.satoshis := by
      unfold wrapInt64
      omega
    rw [List.foldl_cons, hwrap, ih hrest (by omega) (by omega)]
    omega

/-- The actions of the account are no receipts. -/
def Charged (kit : Kit) (originator month : String) (inner : Inner) : Prop :=
  ∀ action ∈ account kit originator month inner, action.satoshis ≤ 0

/-- An account that a query reads in full and adds up without overflow. -/
structure Readable (kit : Kit) (originator month : String) (inner : Inner) : Prop where
  pages : ∀ origin ∈ buildOriginatorLookupValues kit.lowercase originator,
    (inner.labelled (accountLabels origin month)).length ≤ 10000
  total : cost (account kit originator month inner) < 2 ^ 63

theorem querySpentSince_eq (hcharged : Charged kit originator month inner)
    (hreadable : Readable kit originator month inner) :
    (querySpentSince kit month originator inner : Int) = cost (account kit originator month inner) := by
  have hlisted : ((buildOriginatorLookupValues kit.lowercase originator).flatMap fun origin =>
      inner.listActions (accountLabels origin month)) = account kit originator month inner := by
    refine List.flatMap_congr fun origin hmem => ?_
    exact List.take_of_length_le (hreadable.pages origin hmem)
  have hnonneg := cost_nonneg hcharged
  have hsmall : 0 + cost (account kit originator month inner) < 2 ^ 63 := by
    have := hreadable.total
    omega
  simp only [querySpentSince, hlisted, foldl_wrapInt64 hcharged le_rfl hsmall]
  omega

/-! ## The tokens -/

/-- The spending tokens of an originator. -/
def dsapTokens (kit : Kit) (originator : String) (inner : Inner) : List PermissionToken :=
  (inner.outputs.filter fun output => output.basket = some basketDsap).filterMap
    (readToken kit 0 .spendingAuthorization
      (normalizeOriginator kit.lowercase (normalizeOriginator kit.lowercase originator)) {})

theorem readToken_spending (now : Nat) (normalized : String) (output : InnerOutput) :
    readToken kit now .spendingAuthorization normalized {} output =
      readToken kit 0 .spendingAuthorization normalized {} output := rfl

theorem mem_of_mem_collectTokens {read : InnerOutput → Option PermissionToken}
    {outputs : List InnerOutput} {seen : List Outpoint} {token : PermissionToken}
    (h : token ∈ collectTokens read outputs seen) : ∃ output ∈ outputs, read output = some token := by
  induction outputs generalizing seen with
  | nil => cases h
  | cons output rest ih =>
    have hrest : ∀ seen, token ∈ collectTokens read rest seen →
        ∃ output' ∈ output :: rest, read output' = some token := by
      intro seen hmem
      obtain ⟨output', hmem', hread⟩ := ih hmem
      exact ⟨output', List.mem_cons_of_mem _ hmem', hread⟩
    rw [collectTokens] at h
    split at h
    · exact hrest _ h
    · cases hread : read output with
      | none =>
        rw [hread] at h
        exact hrest _ h
      | some token' =>
        rw [hread] at h
        rcases List.mem_cons.mp h with rfl | hmem
        · exact ⟨output, List.mem_cons_self, hread⟩
        · exact hrest _ hmem

/-- A spending check sees no other tokens. -/
theorem mem_dsapTokens {now : Nat} {token : PermissionToken}
    (h : token ∈ spendingTokens kit now (normalizeOriginator kit.lowercase originator) inner) :
    token ∈ dsapTokens kit originator inner := by
  obtain ⟨output, hlisted, hread⟩ := mem_of_mem_collectTokens h
  obtain ⟨origin, -, hlisted⟩ := List.mem_flatMap.mp hlisted
  obtain ⟨hstored, hmatches⟩ := List.mem_filter.mp (List.mem_of_mem_take hlisted)
  have hbasket : output.basket = some basketDsap := (of_decide_eq_true hmatches).1
  rw [readToken_spending] at hread
  exact List.mem_filterMap.mpr ⟨output, List.mem_filter.mpr ⟨hstored, decide_eq_true hbasket⟩, hread⟩

/-- Every spending token is for at most an amount. -/
def Capped (kit : Kit) (originator : String) (cap : Nat) (inner : Inner) : Prop :=
  ∀ token ∈ dsapTokens kit originator inner, ∀ amount, token.authorizedAmount = some amount →
    amount ≤ cap

/-- A token that covers an amount bounds it, unless the sum overflows. -/
theorem Capped.covers {now spentSoFar amount : Nat} {token : PermissionToken}
    (h : Capped kit originator cap inner)
    (htoken : token ∈ spendingTokens kit now (normalizeOriginator kit.lowercase originator) inner)
    (hcovers : token.covers spentSoFar amount = true) (hsmall : spentSoFar + amount < 2 ^ 64) :
    spentSoFar + amount ≤ cap := by
  unfold PermissionToken.covers at hcovers
  split at hcovers
  next authorizedAmount hauthorized =>
    have hle := h token (mem_dsapTokens htoken) authorizedAmount hauthorized
    simp only [decide_eq_true_eq] at hcovers
    omega
  next => cases hcovers

/-! ## The checks before -/

/-- What the basket checks of a call leave alone: the grants and the tokens for spending, and the
actions with labels. -/
structure Aside (s₀ s : State) : Prop where
  grants : ∀ normalized amount, s.cache.recentGrants.lookup (spendingKey normalized amount) =
    s₀.cache.recentGrants.lookup (spendingKey normalized amount)
  labelled : ∀ label labels, s.inner.labelled (label :: labels) = s₀.inner.labelled (label :: labels)
  outputs : s.inner.outputs.filter (fun output => output.basket = some basketDsap) =
    s₀.inner.outputs.filter fun output => output.basket = some basketDsap

namespace Aside

variable {s₀ s : State} {key : String}

theorem refl (s : State) : Aside s s := ⟨fun _ _ => rfl, fun _ _ => rfl, rfl⟩

theorem setCache (h : Aside s₀ s) {cache : PermissionCache}
    (hgrants : cache.recentGrants = s.cache.recentGrants) : Aside s₀ { s with cache } :=
  ⟨fun normalized amount => (congrArg _ hgrants).trans (h.grants normalized amount), h.labelled,
    h.outputs⟩

theorem insertCache (h : Aside s₀ s) (now : Nat) (key : String) (granted : Bool) (ttl : Nat) :
    Aside s₀ { s with cache := s.cache.insertCache now key granted ttl } :=
  h.setCache rfl

theorem recordRecentGrant (h : Aside s₀ s) (now : Nat)
    (hkey : ∀ normalized amount, key ≠ spendingKey normalized amount) :
    Aside s₀ { s with cache := s.cache.recordRecentGrant now key } where
  grants normalized amount :=
    (AList.lookup_insert_ne (hkey normalized amount).symm).trans (h.grants normalized amount)
  labelled := h.labelled
  outputs := h.outputs

/-- A token for something else is an action without labels. -/
theorem createPermissionToken (h : Aside s₀ s) {request : PermissionRequest}
    (hrequest : request.permissionType ≠ .spendingAuthorization) (expiry : Option Nat) (txid : String) :
    Aside s₀ { s with inner := createPermissionToken kit request expiry txid s.inner } where
  grants := h.grants
  labelled label labels := by
    rw [← h.labelled]
    simp [Permissions.createPermissionToken, Inner.createAction, Inner.labelled]
  outputs := by
    have hbasket : basketForType request.permissionType ≠ basketDsap := by
      cases htype : request.permissionType with
      | spendingAuthorization => exact (hrequest htype).elim
      | _ => decide +kernel
    rw [← h.outputs]
    simp [Permissions.createPermissionToken, Inner.createAction, newOutputs, hbasket]

end Aside

theorem Query.Guarded.key_ne_spendingKey {q : Query} (hq : q.Guarded) (normalized : String)
    (amount : Nat) : q.cacheKey ≠ spendingKey normalized amount := by
  obtain ⟨o, d, hkey⟩ := hq.key
  rw [hkey]
  exact buildCacheKey_spending hq.type

theorem askUser_aside {q : Query} (hq : q.Guarded) {s₀ s s' : State} {r : Except SdkError Unit}
    (hs : Aside s₀ s) (h : askUser kit a q s = some (r, s')) : Aside s₀ s' := by
  unfold askUser at h
  split at h
  next expiry _ =>
    simp only [Option.some.injEq, Prod.mk.injEq] at h
    obtain ⟨-, rfl⟩ := h
    have hgranted : Aside s₀ { s with inner := grantPermission kit a q.request expiry s.inner } := by
      unfold grantPermission
      split
      · exact hs.createPermissionToken (hq.request ▸ hq.type) expiry _
      · exact hs
    have hinserted := hgranted.insertCache a.now q.cacheKey true manifestCacheTtl
    have hrecorded := hinserted.recordRecentGrant a.now hq.key_ne_spendingKey
    exact hrecorded.setCache (PermissionCache.recentGrants_completeRequest _ _ _)
  next =>
    simp only [Option.some.injEq, Prod.mk.injEq] at h
    obtain ⟨-, rfl⟩ := h
    exact hs.setCache (PermissionCache.recentGrants_completeRequest _ _ _)
  next =>
    simp only [Option.some.injEq, Prod.mk.injEq] at h
    obtain ⟨-, rfl⟩ := h
    exact hs.setCache (PermissionCache.recentGrants_completeRequest _ _ _)

theorem lookupOrAsk_aside {q : Query} (hq : q.Guarded) {s₀ : State} (s : State) {s' : State}
    {r : Except SdkError Unit} (hs : Aside s₀ s) (h : lookupOrAsk kit a q s = some (r, s')) :
    Aside s₀ s' := by
  unfold lookupOrAsk at h
  split at h
  · simp only [Option.some.injEq, Prod.mk.injEq] at h
    obtain ⟨-, rfl⟩ := h
    exact hs.setCache (PermissionCache.recentGrants_completeRequest _ _ _)
  split at h
  · simp only [Option.some.injEq, Prod.mk.injEq] at h
    obtain ⟨-, rfl⟩ := h
    have hinserted := hs.insertCache a.now q.cacheKey true manifestCacheTtl
    have hrecorded := hinserted.recordRecentGrant a.now hq.key_ne_spendingKey
    exact hrecorded.setCache (PermissionCache.recentGrants_completeRequest _ _ _)
  · exact askUser_aside hq hs h

theorem resolvePermission_aside {q : Query} (hq : q.Guarded) (s₀ : State) :
    (resolvePermission kit a q).Keeps (Aside s₀) True := by
  intro s r s' hs h
  refine ⟨?_, fun _ => trivial⟩
  have hchecked := PermissionCache.recentGrants_checkCache s.cache a.now q.cacheKey
  unfold resolvePermission at h
  split at h
  next cache hcache =>
    cases h
    rw [hcache] at hchecked
    exact hs.setCache hchecked
  next cache hcache =>
    cases h
    rw [hcache] at hchecked
    exact hs.setCache hchecked
  next cache hcache =>
    rw [hcache] at hchecked
    split at h
    · cases h
      exact hs.setCache hchecked
    have hdedup := PermissionCache.recentGrants_tryDeduplicate cache q.cacheKey
    split at h
    · cases h
    next cache' hproceed =>
      rw [hproceed] at hdedup
      exact lookupOrAsk_aside hq { s with cache := cache' } (hs.setCache (hdedup.trans hchecked)) h

theorem ensureBasketAccess_aside {basketName : String} {usage : BasketUsage} (s₀ : State) :
    (ensureBasketAccess kit mgr a originator basketName usage).Keeps (Aside s₀) True := by
  unfold ensureBasketAccess
  cases hdecision : basketDecision kit mgr originator basketName usage with
  | pass => exact .pass
  | refuse e => exact .refuse e
  | resolve query =>
    have hquery : query.Guarded := by
      simp only [basketDecision] at hdecision
      split at hdecision
      · cases hdecision
      split at hdecision
      · cases hdecision
      split at hdecision
      · cases hdecision
      cases hdecision
      exact ⟨PermissionType.noConfusion, ⟨_, _, rfl⟩, rfl⟩
    exact resolvePermission_aside hquery s₀

/-- An application may use no basket of the admin. -/
theorem ensureBasketAccess_admin {basketName : String} {usage : BasketUsage} {I : State → Prop}
    (hnotAdmin : mgr.isAdmin kit (normalizeOriginator kit.lowercase originator) = false)
    (hbasket : isAdminBasket basketName = true) :
    (ensureBasketAccess kit mgr a originator basketName usage).Keeps I False := by
  have hrefused : basketDecision kit mgr originator basketName usage =
      .refuse (.notImplemented ("Basket \"" ++ basketName ++ "\" is admin-only.")) := by
    simp [basketDecision, hnotAdmin, hbasket]
  rw [ensureBasketAccess, hrefused]
  exact .refuse _

/-- The basket checks of an action: they leave the spending side alone, and refuse the basket of the
spending tokens. -/
theorem basketChecks_aside (args : CreateActionArgs) (s₀ : State)
    (hnotAdmin : mgr.isAdmin kit (normalizeOriginator kit.lowercase originator) = false) :
    (Check.all <| args.outputs.filterMap fun output =>
      output.basket.map fun basket =>
        ensureBasketAccess kit mgr a originator basket .insertion).Keeps (Aside s₀)
      (∀ output ∈ args.outputs, output.basket ≠ some basketDsap) := by
  refine (Check.Keeps.all fun p hmem => ?_).weaken fun hpassed output hmem hbasket => ?_
  · obtain ⟨output, -, hbasket⟩ := List.mem_filterMap.mp hmem
    obtain ⟨basket, -, rfl⟩ := Option.map_eq_some_iff.mp hbasket
    exact ensureBasketAccess_aside s₀
  · have hcheck : ensureBasketAccess kit mgr a originator basketDsap .insertion ∈
        args.outputs.filterMap fun output =>
          output.basket.map fun basket => ensureBasketAccess kit mgr a originator basket .insertion :=
      List.mem_filterMap.mpr ⟨output, hmem, by rw [hbasket, Option.map_some]⟩
    exact hpassed _ hcheck False
      (ensureBasketAccess_admin hnotAdmin (isAdminBasket_basketForType .spendingAuthorization))

/-! ## Purchases -/

/-- A `create_action` call of the originator, with the answers of the outside. -/
structure Purchase where
  args : CreateActionArgs
  answers : Answers
  reply : Except SdkError Reply

/-- The output satoshis of an action. -/
def CreateActionArgs.total (args : CreateActionArgs) : Nat := (args.outputs.map (·.satoshis)).sum

/-- The wallet, and the output satoshis of the calls that were let through. -/
structure Ledger where
  wallet : State := {}
  authorized : Nat := 0

def Purchase.next (kit : Kit) (mgr : Manager) (originator : String) (p : Purchase) (l : Ledger) :
    Ledger where
  wallet := Request.next kit mgr
    { originator := some originator
      call := .createAction p.args
      answers := p.answers
      reply := p.reply } l.wallet
  authorized :=
    if (createActionChecks kit mgr p.answers originator p.args).Succeeds l.wallet then
      l.authorized + p.args.total
    else l.authorized

/-- The purchases of an originator in a month. The user grants no spending; the wallet below charges
an action with at least its outputs, under a new transaction id. -/
def purchases (kit : Kit) (mgr : Manager) (originator month : String) : System Ledger Purchase where
  init := {}
  Enabled l p := p.answers.month = month ∧
    (∀ amount, p.answers.Denies
      (spendingRequest (normalizeOriginator kit.lowercase originator) amount)) ∧
    ∀ reply, p.reply = .ok reply → reply.satoshis ≤ -p.args.total ∧
      ∀ action ∈ l.wallet.inner.actions, action.txid ≠ reply.txid
  next := Purchase.next kit mgr originator

/-- The wallet below makes the action, and it is not taken back. -/
def Purchase.kept (p : Purchase) : Bool :=
  p.answers.metadata.isNone &&
    match p.reply with
    | .ok reply => (checkSignable p.args reply.signable).isOk || !reply.aborts
    | .error _ => false

/-- A purchase that the account of the month decides, and that comes to stand on it. -/
structure Counted (kit : Kit) (originator month : String) (l : Ledger) (p : Purchase) : Prop where
  amount : p.args.total < 2 ^ 64
  recent : l.wallet.cache.isRecentGrant p.answers.now
    (spendingKey (normalizeOriginator kit.lowercase originator) p.args.total) = false
  listed : p.answers.listActions = none
  readable : Readable kit originator month l.wallet.inner
  total : cost (account kit originator month l.wallet.inner) + p.args.total < 2 ^ 64
  kept : p.kept = true

/-- The step condition: an action that pays something is counted. -/
def countedIfPaid (kit : Kit) (originator month : String) (l : Ledger) (p : Purchase) : Prop :=
  0 < p.args.total → Counted kit originator month l p

/-- What has been let through is on the account and within the cap. -/
structure Bounded (kit : Kit) (originator month : String) (cap : Nat) (l : Ledger) : Prop where
  tokens : Capped kit originator cap l.wallet.inner
  charged : Charged kit originator month l.wallet.inner
  counted : originator ≠ "" →
    (l.authorized : Int) ≤ cost (l.wallet.inner.labelled (accountLabels originator month))
  bounded : l.authorized ≤ cap

/-! ## What a call leaves in the wallet -/

theorem Charged.of_labelled {inner' : Inner} (h : Charged kit originator month inner)
    (hlabelled : ∀ origin, ∀ action ∈ inner'.labelled (accountLabels origin month),
      action ∈ inner.labelled (accountLabels origin month) ∨ action.satoshis ≤ 0) :
    Charged kit originator month inner' := by
  intro action hmem
  obtain ⟨origin, horigin, hmem⟩ := List.mem_flatMap.mp hmem
  rcases hlabelled origin action hmem with hold | hnew
  · exact h action (List.mem_flatMap.mpr ⟨origin, horigin, hold⟩)
  · exact hnew

theorem Capped.of_outputs {inner' : Inner} (h : Capped kit originator cap inner)
    (houtputs : ∀ output ∈ inner'.outputs, output.basket = some basketDsap →
      output ∈ inner.outputs) : Capped kit originator cap inner' := by
  intro token hmem
  obtain ⟨output, houtput, hread⟩ := List.mem_filterMap.mp hmem
  obtain ⟨hstored, hbasket⟩ := List.mem_filter.mp houtput
  refine h token (List.mem_filterMap.mpr ⟨output, List.mem_filter.mpr ⟨?_, hbasket⟩, hread⟩)
  exact houtputs output hstored (of_decide_eq_true hbasket)

/-- The spending side of a wallet is that of another one. -/
structure SameAccount (inner inner' : Inner) : Prop where
  labelled : ∀ label labels, inner'.labelled (label :: labels) = inner.labelled (label :: labels)
  outputs : ∀ output ∈ inner'.outputs, output.basket = some basketDsap → output ∈ inner.outputs

theorem Aside.sameAccount {s₀ s : State} (h : Aside s₀ s) : SameAccount s₀.inner s.inner where
  labelled := h.labelled
  outputs := by
    intro output hmem hbasket
    have hfiltered : output ∈ s.inner.outputs.filter fun output => output.basket = some basketDsap :=
      List.mem_filter.mpr ⟨hmem, decide_eq_true hbasket⟩
    rw [h.outputs] at hfiltered
    exact (List.mem_filter.mp hfiltered).1

theorem SameAccount.account {inner' : Inner} (h : SameAccount inner inner') :
    account kit originator month inner' = account kit originator month inner :=
  List.flatMap_congr fun _ _ => h.labelled _ _

theorem SameAccount.bounded {l : Ledger} {wallet : State} (h : SameAccount l.wallet.inner wallet.inner)
    (hl : Bounded kit originator month cap l) :
    Bounded kit originator month cap { l with wallet } where
  tokens := hl.tokens.of_outputs h.outputs
  charged := by
    intro action hmem
    rw [h.account] at hmem
    exact hl.charged action hmem
  counted hne := (h.labelled _ _).symm ▸ hl.counted hne
  bounded := hl.bounded

theorem createActionChecks_spec {s s' : State} {r : Except SdkError Unit} {args : CreateActionArgs}
    (hnotAdmin : mgr.isAdmin kit (normalizeOriginator kit.lowercase originator) = false)
    (hdenies : ∀ amount, a.Denies
      (spendingRequest (normalizeOriginator kit.lowercase originator) amount))
    (h : createActionChecks kit mgr a originator args s = some (r, s')) :
    ∃ s₁, Aside s s₁ ∧ s'.inner = s₁.inner ∧ (r = .ok () →
      (∀ output ∈ args.outputs, output.basket ≠ some basketDsap) ∧
      (0 < totalOutputSats args.outputs →
        ensureSpendingAuthorization kit mgr a originator (totalOutputSats args.outputs) s₁ =
          some (.ok (), s'))) := by
  have hbaskets := basketChecks_aside (a := a) args s hnotAdmin
  unfold createActionChecks Check.andThen at h
  split at h
  next s₁ hpassed =>
    obtain ⟨haside, hnone⟩ := hbaskets s _ s₁ (.refl s) hpassed
    refine ⟨s₁, haside, ?_⟩
    split at h
    next hpaid =>
      have hinner : s'.inner = s₁.inner := by
        rcases ensureSpendingAuthorization_state (hdenies _) h with rfl | rfl
        · rfl
        · rfl
      exact ⟨hinner, fun hr => ⟨hnone rfl, fun _ => hr ▸ h⟩⟩
    next hfree =>
      cases h
      exact ⟨rfl, fun _ => ⟨hnone rfl, fun hpaid => (hfree hpaid).elim⟩⟩
  next hfailed =>
    obtain ⟨haside, -⟩ := hbaskets s r s' (.refl s) h
    refine ⟨s', haside, rfl, fun hr => ?_⟩
    subst hr
    exact (hfailed s' h).elim

theorem labelled_createAction (inner : Inner) (txid : String) (satoshis : Int)
    (outputs : List CreateActionOutput) (labels labels' : List String) :
    (inner.createAction txid satoshis outputs labels).labelled labels' =
      inner.labelled labels' ++
        if ∀ label ∈ labels', label ∈ labels then [⟨txid, labels, satoshis⟩] else [] := by
  unfold Inner.labelled Inner.createAction
  rw [List.filter_append]
  congr 1
  split
  next hall => simpa using hall
  next hnot => simpa using hnot

theorem mem_newOutputs {txid : String} {outputs : List CreateActionOutput} {output : InnerOutput}
    (h : output ∈ newOutputs txid outputs) : ∃ requested ∈ outputs, output.basket = requested.basket := by
  obtain ⟨⟨requested, index⟩, hindexed, rfl⟩ := List.mem_map.mp h
  obtain ⟨-, -, hget⟩ := List.mem_zipIdx hindexed
  exact ⟨requested, hget ▸ List.getElem_mem _, rfl⟩

/-- An action on the account of the month. -/
def chargedInner (inner : Inner) (originator month : String) (args : CreateActionArgs) (reply : Reply) :
    Inner :=
  inner.createAction reply.txid reply.satoshis args.outputs
    (args.labels.getD [] ++ accountLabels originator month)

theorem Bounded.charge {l : Ledger} {args : CreateActionArgs} {reply : Reply} {paid : Nat}
    (hl : Bounded kit originator month cap l)
    (houtputs : ∀ output ∈ args.outputs, output.basket ≠ some basketDsap)
    (hcost : reply.satoshis ≤ -args.total) (hpaid : paid ≤ args.total)
    (hcap : l.authorized + paid ≤ cap) :
    Bounded kit originator month cap
      { wallet := { l.wallet with inner := chargedInner l.wallet.inner originator month args reply }
        authorized := l.authorized + paid } where
  tokens := by
    refine hl.tokens.of_outputs fun output hmem hbasket => ?_
    rcases List.mem_append.mp hmem with hold | hnew
    · exact hold
    · obtain ⟨requested, hrequested, hsame⟩ := mem_newOutputs hnew
      exact (houtputs requested hrequested (hsame ▸ hbasket)).elim
  charged := by
    refine hl.charged.of_labelled fun origin action hmem => ?_
    rw [chargedInner, labelled_createAction] at hmem
    rcases List.mem_append.mp hmem with hold | hnew
    · exact .inl hold
    · right
      split at hnew
      · rw [List.mem_singleton.mp hnew]
        dsimp only
        omega
      · cases hnew
  counted hne := by
    have hlabels : ∀ label ∈ accountLabels originator month,
        label ∈ args.labels.getD [] ++ accountLabels originator month :=
      fun label hmem => List.mem_append_right _ hmem
    have hcounted := hl.counted hne
    dsimp only
    rw [chargedInner, labelled_createAction, if_pos hlabels, cost_append]
    simp only [cost, List.map_cons, List.map_nil, List.sum_cons, List.sum_nil] at hcounted ⊢
    omega
  bounded := hcap

/-- An action that is taken back leaves the account as it was, since its transaction id was new. -/
theorem sameAccount_abort {inner₀ : Inner} {args : CreateActionArgs} {reply : Reply}
    (h : SameAccount inner₀ inner)
    (houtputs : ∀ output ∈ args.outputs, output.basket ≠ some basketDsap)
    (hfresh : ∀ action ∈ inner₀.actions, action.txid ≠ reply.txid) :
    SameAccount inner₀ ((chargedInner inner originator month args reply).abortAction reply.txid) where
  labelled label labels := by
    have hold : (inner.labelled (label :: labels)).filter (fun action => action.txid ≠ reply.txid) =
        inner₀.labelled (label :: labels) := by
      rw [h.labelled, List.filter_eq_self]
      intro action hmem
      exact decide_eq_true (hfresh action (List.mem_filter.mp hmem).1)
    have hswap : ((chargedInner inner originator month args reply).abortAction
        reply.txid).labelled (label :: labels) =
        ((chargedInner inner originator month args reply).labelled (label :: labels)).filter
          fun action => action.txid ≠ reply.txid := by
      unfold Inner.labelled Inner.abortAction
      rw [List.filter_comm]
    rw [hswap, chargedInner, labelled_createAction, List.filter_append, hold]
    split
    · simp
    · simp
  outputs := by
    intro output hmem hbasket
    have hcreated := (List.mem_filter.mp hmem).1
    rcases List.mem_append.mp hcreated with hold | hnew
    · exact h.outputs output hold hbasket
    · obtain ⟨requested, hrequested, hsame⟩ := mem_newOutputs hnew
      exact (houtputs requested hrequested (hsame ▸ hbasket)).elim

/-- The end of a call leaves the wallet as it was, or with the action, or with the action made and
taken back; an action that is kept stays. -/
theorem delegateCreateAction_cases {p : Purchase} {s s' : State} {r : Except SdkError Unit}
    (h : delegateCreateAction p.answers p.reply originator p.args s = some (r, s')) :
    (p.kept = false ∧ s' = s) ∨ ∃ reply, p.reply = .ok reply ∧
      (s' = { s with inner := chargedInner s.inner originator p.answers.month p.args reply } ∨
        p.kept = false ∧ s' = { s with
          inner := (chargedInner s.inner originator p.answers.month p.args reply).abortAction
            reply.txid }) := by
  unfold delegateCreateAction at h
  split at h
  next hmetadata =>
    cases h
    exact .inl ⟨by simp [Purchase.kept, hmetadata], rfl⟩
  next hmetadata hreply =>
    cases h
    exact .inl ⟨by simp [Purchase.kept, hreply], rfl⟩
  next reply hmetadata hreply =>
    refine .inr ⟨reply, hreply, ?_⟩
    dsimp only at h
    split at h
    · cases h
      exact .inl rfl
    next e hsignable =>
      simp only [Option.some.injEq, Prod.mk.injEq] at h
      obtain ⟨-, rfl⟩ := h
      split
      next haborts =>
        refine .inr ⟨?_, rfl⟩
        simp [Purchase.kept, hreply, hsignable, haborts, Except.isOk, Except.toBool]
      next => exact .inl rfl

theorem delegateCreateAction_ne_none {reply : Except SdkError Reply} {args : CreateActionArgs}
    {s : State} : delegateCreateAction a reply originator args s ≠ none := by
  intro h
  unfold delegateCreateAction at h
  split at h
  · cases h
  · cases h
  · dsimp only at h
    split at h
    · cases h
    · cases h

/-! ## The run -/

/-- The query of the month looks under an originator as it is, when no white space surrounds it. -/
theorem lookupValues_head (kit : Kit) (htrim : String.ofList (trim originator.toList) = originator)
    (hne : originator ≠ "") :
    ∃ rest, buildOriginatorLookupValues kit.lowercase originator = originator :: rest := by
  simp only [buildOriginatorLookupValues, htrim, if_neg hne]
  split
  · exact ⟨_, rfl⟩
  · exact ⟨[], rfl⟩

theorem cost_labelled_le (htrim : String.ofList (trim originator.toList) = originator)
    (hne : originator ≠ "") (h : Charged kit originator month inner) :
    cost (inner.labelled (accountLabels originator month)) ≤
      cost (account kit originator month inner) := by
  obtain ⟨rest, hlookup⟩ := lookupValues_head kit htrim hne
  have hothers : 0 ≤ cost (rest.flatMap fun origin => inner.labelled (accountLabels origin month)) := by
    refine cost_nonneg fun action hmem => h action ?_
    rw [account, hlookup, List.flatMap_cons]
    exact List.mem_append_right _ hmem
  rw [account, hlookup, List.flatMap_cons, cost_append]
  omega

/-- The empty originator has no tokens. -/
theorem spendingTokens_empty (now : Nat) :
    spendingTokens kit now (normalizeOriginator kit.lowercase "") inner = [] := by
  have hnormalized : normalizeOriginator kit.lowercase "" = "" := by
    simp [normalizeOriginator, trim, trimStart]
  rw [hnormalized]
  simp [spendingTokens, lookupPermissionTokens, buildOriginatorLookupValues, trim, trimStart,
    collectTokens]

/-- A spending check lets through what the cap has left. -/
theorem Bounded.authorize {l : Ledger} {p : Purchase} {s' : State}
    (hl : Bounded kit originator month cap l)
    (hnotAdmin : mgr.isAdmin kit (normalizeOriginator kit.lowercase originator) = false)
    (hrequired : mgr.config.requireSpendingAuthorization = true)
    (htrim : String.ofList (trim originator.toList) = originator)
    (hmonth : p.answers.month = month)
    (hdenies : p.answers.Denies
      (spendingRequest (normalizeOriginator kit.lowercase originator) p.args.total))
    (hcounted : Counted kit originator month l p)
    (h : ensureSpendingAuthorization kit mgr p.answers originator p.args.total l.wallet =
      some (.ok (), s')) :
    l.authorized + p.args.total ≤ cap := by
  obtain ⟨token, htoken, hcovers⟩ := ensureSpendingAuthorization_covered hnotAdmin hrequired hdenies
    hcounted.recent hcounted.listed h
  have hne : originator ≠ "" := by
    rintro rfl
    rw [spendingTokens_empty] at htoken
    cases htoken
  have hspent := querySpentSince_eq hl.charged hcounted.readable
  rw [hmonth] at hcovers
  have htotal := hcounted.total
  have hle := hl.tokens.covers htoken hcovers (by omega)
  have hlabelled := cost_labelled_le htrim hne hl.charged
  have hon := hl.counted hne
  omega

theorem Counted.aside {l : Ledger} {p : Purchase} {s : State} (h : Counted kit originator month l p)
    (haside : Aside l.wallet s) : Counted kit originator month { l with wallet := s } p where
  amount := h.amount
  recent := by
    have hrecent := h.recent
    unfold PermissionCache.isRecentGrant at hrecent ⊢
    rw [haside.grants]
    exact hrecent
  listed := h.listed
  readable := by
    refine ⟨fun origin hmem => ?_, ?_⟩
    · exact (congrArg _ (haside.labelled _ _)).trans_le (h.readable.pages origin hmem)
    · exact (congrArg _ haside.sameAccount.account).trans_lt h.readable.total
  total := by
    have htotal := h.total
    rw [← haside.sameAccount.account] at htotal
    exact htotal
  kept := h.kept

/-- What the checks of a purchase let through stays within the cap. -/
theorem Bounded.checks {l : Ledger} {p : Purchase} {s₀ s₁ : State}
    (hl : Bounded kit originator month cap l)
    (hnotAdmin : mgr.isAdmin kit (normalizeOriginator kit.lowercase originator) = false)
    (hrequired : mgr.config.requireSpendingAuthorization = true)
    (htrim : String.ofList (trim originator.toList) = originator)
    (henabled : (purchases kit mgr originator month).Enabled l p)
    (hcounted : countedIfPaid kit originator month l p) (haside : Aside l.wallet s₀)
    (hspending : 0 < totalOutputSats p.args.outputs →
      ensureSpendingAuthorization kit mgr p.answers originator (totalOutputSats p.args.outputs) s₀ =
        some (.ok (), s₁)) :
    l.authorized + p.args.total ≤ cap := by
  obtain ⟨hmonth, hdenies, -⟩ := henabled
  by_cases hpaid : 0 < p.args.total
  · have hcounted := (hcounted hpaid).aside haside
    have htotal : totalOutputSats p.args.outputs = p.args.total := Nat.mod_eq_of_lt hcounted.amount
    rw [htotal] at hspending
    exact (haside.sameAccount.bounded hl).authorize hnotAdmin hrequired htrim hmonth (hdenies _)
      hcounted (hspending hpaid)
  · have hbounded := hl.bounded
    omega

theorem Bounded.step {l : Ledger} {p : Purchase} (hl : Bounded kit originator month cap l)
    (hnotAdmin : mgr.isAdmin kit (normalizeOriginator kit.lowercase originator) = false)
    (hrequired : mgr.config.requireSpendingAuthorization = true)
    (htrim : String.ofList (trim originator.toList) = originator)
    (henabled : (purchases kit mgr originator month).Enabled l p)
    (hcounted : countedIfPaid kit originator month l p) :
    Bounded kit originator month cap (p.next kit mgr originator l) := by
  cases hchecks : createActionChecks kit mgr p.answers originator p.args l.wallet with
  | none =>
    have hwaits : ¬(createActionChecks kit mgr p.answers originator p.args).Succeeds l.wallet := by
      rintro ⟨s', hpassed⟩
      cases hchecks.symm.trans hpassed
    simpa only [Purchase.next, if_neg hwaits, Request.next, Request.orig, Option.getD_some,
      WalletCall.serve, WalletCall.checks, Check.andThen, hchecks] using hl
  | some result =>
    obtain ⟨r, s₁⟩ := result
    obtain ⟨s₀, haside, hinner, hpassed⟩ := createActionChecks_spec hnotAdmin henabled.2.1 hchecks
    have hsame : SameAccount l.wallet.inner s₁.inner := hinner ▸ haside.sameAccount
    have hl₁ := hsame.bounded hl
    cases r with
    | error e =>
      have hrefused : ¬(createActionChecks kit mgr p.answers originator p.args).Succeeds l.wallet := by
        rintro ⟨s', hpassed⟩
        cases hchecks.symm.trans hpassed
      simpa only [Purchase.next, if_neg hrefused, Request.next, Request.orig, Option.getD_some,
        WalletCall.serve, WalletCall.checks, Check.andThen, hchecks] using hl₁
    | ok =>
      obtain ⟨houtputs, hspending⟩ := hpassed rfl
      have hcap := hl.checks hnotAdmin hrequired htrim henabled hcounted haside hspending
      have hsucceeds : (createActionChecks kit mgr p.answers originator p.args).Succeeds l.wallet :=
        ⟨s₁, hchecks⟩
      simp only [Purchase.next, if_pos hsucceeds, Request.next, Request.orig, Option.getD_some,
        WalletCall.serve, WalletCall.checks, WalletCall.delegated, Check.andThen, hchecks]
      -- An action that is not kept pays nothing.
      have hfree : p.kept = false → p.args.total = 0 := by
        intro hkept
        by_contra hpaid
        have hcontra := (hcounted (Nat.pos_of_ne_zero hpaid)).kept
        rw [hkept] at hcontra
        cases hcontra
      split
      next result s₂ hdelegated =>
        rcases delegateCreateAction_cases hdelegated with ⟨hkept, rfl⟩ | ⟨reply, hreply, rfl | ⟨hkept, rfl⟩⟩
        · rw [hfree hkept]
          exact hl₁
        · have hcost := (henabled.2.2 reply hreply).1
          rw [henabled.1]
          exact hl₁.charge houtputs hcost le_rfl hcap
        · have hfresh := (henabled.2.2 reply hreply).2
          rw [hfree hkept]
          exact (sameAccount_abort hsame houtputs hfresh).bounded hl
      next hnone => exact (delegateCreateAction_ne_none hnone).elim

/-- The cap holds: in every run of purchases within a month whose paying actions are all counted, what
was let through is at most what the one token is for. -/
theorem spending_cap {cap : Nat} {wallet : State} {l : Ledger}
    (hnotAdmin : mgr.isAdmin kit (normalizeOriginator kit.lowercase originator) = false)
    (hrequired : mgr.config.requireSpendingAuthorization = true)
    (htrim : String.ofList (trim originator.toList) = originator)
    (htoken : (dsapTokens kit originator wallet.inner).map (·.authorizedAmount) = [some cap])
    (hcharged : Charged kit originator month wallet.inner)
    (hl : ((purchases kit mgr originator month).startingAt { wallet }).Reaches
      (countedIfPaid kit originator month) l) :
    l.authorized ≤ cap := by
  have hinit : Bounded kit originator month cap { wallet } := by
    refine ⟨fun token hmem amount hamount => ?_, hcharged, ?_, Nat.zero_le _⟩
    · have hone := List.mem_map_of_mem (f := (·.authorizedAmount)) hmem
      rw [htoken, List.mem_singleton, hamount] at hone
      exact (Option.some.inj hone).le
    · intro hne
      obtain ⟨rest, hlookup⟩ := lookupValues_head kit htrim hne
      refine cost_nonneg fun action hmem => hcharged action ?_
      rw [account, hlookup, List.flatMap_cons]
      exact List.mem_append_left _ hmem
  refine (hl.inv (I := Bounded kit originator month cap) hinit ?_).bounded
  intro l p hl henabled hcounted
  exact hl.step hnotAdmin hrequired htrim henabled hcounted

/-! ## A run -/

/-- A wallet with a token for a thousand satoshis. -/
def allowance : State where
  inner := createPermissionToken sampleKit (spendingRequest "app.example" 1000) none
    "0f0e0d0c0b0a09080706050403020100ffeeddccbbaa99887766554433221100" {}

/-- Pay an amount at some time, with a fee of one satoshi. -/
def pay (txid : String) (satoshis now : Nat) : Purchase where
  args := { outputs := [{ lockingScript := none, satoshis, basket := none, tags := none }] }
  answers := { noCallback with now }
  reply := .ok { txid, satoshis := -satoshis - 1, signable := none, aborts := false }

theorem pay_enabled {l : Ledger} {txid : String} {satoshis now : Nat}
    (hfresh : ∀ action ∈ l.wallet.inner.actions, action.txid ≠ txid) :
    (purchases sampleKit exampleManager "app.example" "2026-01").Enabled l (pay txid satoshis now) := by
  refine ⟨rfl, fun _ => ⟨_, rfl⟩, fun reply hreply => ?_⟩
  cases hreply
  refine ⟨?_, hfresh⟩
  simp only [pay, CreateActionArgs.total, List.map_cons, List.map_nil, List.sum_cons, List.sum_nil]
  omega

/-- What a purchase from the ledger must find to be counted. -/
theorem pay_counted {l : Ledger} {txid : String} {satoshis now : Nat}
    (hrecent : l.wallet.cache.isRecentGrant now (spendingKey
      (normalizeOriginator sampleKit.lowercase "app.example") (pay txid satoshis now).args.total) = false)
    (hpages : ∀ origin ∈ buildOriginatorLookupValues sampleKit.lowercase "app.example",
      (l.wallet.inner.labelled (accountLabels origin "2026-01")).length ≤ 10000)
    (hnonneg : 0 ≤ cost (account sampleKit "app.example" "2026-01" l.wallet.inner))
    (hcost : cost (account sampleKit "app.example" "2026-01" l.wallet.inner) < 1000)
    (htotal : (pay txid satoshis now).args.total ≤ 1000) :
    countedIfPaid sampleKit "app.example" "2026-01" l (pay txid satoshis now) := by
  exact fun _ => ⟨by omega, hrecent, rfl, ⟨hpages, by omega⟩, by omega, rfl⟩

theorem allowance_covers :
    exampleManager.isAdmin sampleKit (normalizeOriginator sampleKit.lowercase "app.example") = false ∧
    String.ofList (trim "app.example".toList) = "app.example" ∧
    (dsapTokens sampleKit "app.example" allowance.inner).map (·.authorizedAmount) = [some 1000] ∧
    ∀ action ∈ account sampleKit "app.example" "2026-01" allowance.inner, action.satoshis ≤ 0 := by
  decide +kernel

theorem pay_first :
    (∀ action ∈ allowance.inner.actions, action.txid ≠ "a1") ∧
    allowance.cache.isRecentGrant 0 (spendingKey
      (normalizeOriginator sampleKit.lowercase "app.example") (pay "a1" 400 0).args.total) = false ∧
    (∀ origin ∈ buildOriginatorLookupValues sampleKit.lowercase "app.example",
      (allowance.inner.labelled (accountLabels origin "2026-01")).length ≤ 10000) ∧
    0 ≤ cost (account sampleKit "app.example" "2026-01" allowance.inner) ∧
    cost (account sampleKit "app.example" "2026-01" allowance.inner) < 1000 := by
  decide +kernel

/-- The ledger after a first purchase. -/
def afterPay (satoshis : Nat) : Ledger :=
  (purchases sampleKit exampleManager "app.example" "2026-01").next (pay "a1" satoshis 0)
    { wallet := allowance }

theorem pay_second :
    (∀ action ∈ (afterPay 400).wallet.inner.actions, action.txid ≠ "a2") ∧
    (afterPay 400).wallet.cache.isRecentGrant 1000 (spendingKey
      (normalizeOriginator sampleKit.lowercase "app.example") (pay "a2" 500 1000).args.total) = false ∧
    (∀ origin ∈ buildOriginatorLookupValues sampleKit.lowercase "app.example",
      ((afterPay 400).wallet.inner.labelled (accountLabels origin "2026-01")).length ≤ 10000) ∧
    0 ≤ cost (account sampleKit "app.example" "2026-01" (afterPay 400).wallet.inner) ∧
    cost (account sampleKit "app.example" "2026-01" (afterPay 400).wallet.inner) < 1000 := by
  decide +kernel

/-- Two amounts that the token covers together. -/
theorem spending_cap_two_amounts :
    ((purchases sampleKit exampleManager "app.example" "2026-01").after { wallet := allowance }
      [pay "a1" 400 0, pay "a2" 500 1000]).authorized ≤ 1000 := by
  obtain ⟨hnotAdmin, htrim, htoken, hcharged⟩ := allowance_covers
  obtain ⟨hfresh₁, hrecent₁, hpages₁, hnonneg₁, hcost₁⟩ := pay_first
  have hsecond := pay_second
  unfold afterPay at hsecond
  obtain ⟨hfresh₂, hrecent₂, hpages₂, hnonneg₂, hcost₂⟩ := hsecond
  have hallows : (purchases sampleKit exampleManager "app.example" "2026-01").Allows
      (countedIfPaid sampleKit "app.example" "2026-01") { wallet := allowance }
      [pay "a1" 400 0, pay "a2" 500 1000] :=
    ⟨⟨pay_enabled hfresh₁, pay_counted hrecent₁ hpages₁ hnonneg₁ hcost₁ (by decide)⟩,
      ⟨pay_enabled hfresh₂,
        pay_counted hrecent₂ hpages₂ hnonneg₂ hcost₂ (by decide)⟩, trivial⟩
  exact spending_cap hnotAdmin rfl htrim htoken hcharged (System.reaches_of_allows hallows)

theorem pay_recent :
    (∀ action ∈ (afterPay 1000).wallet.inner.actions, action.txid ≠ "a2") ∧
    ((purchases sampleKit exampleManager "app.example" "2026-01").after { wallet := allowance }
      [pay "a1" 1000 0, pay "a2" 1000 1000]).authorized = 2000 := by
  decide +kernel

/-- The same amount a second later is a recent grant: the account is not asked. -/
theorem recent_grant_exceeds_cap :
    exampleManager.isAdmin sampleKit (normalizeOriginator sampleKit.lowercase "app.example") = false ∧
    exampleManager.config = {} ∧
    (dsapTokens sampleKit "app.example" allowance.inner).map (·.authorizedAmount) = [some 1000] ∧
    Charged sampleKit "app.example" "2026-01" allowance.inner ∧
    ∃ l, ((purchases sampleKit exampleManager "app.example" "2026-01").startingAt
      { wallet := allowance }).Reaches (fun _ _ => True) l ∧ l.authorized = 2000 := by
  obtain ⟨hnotAdmin, -, htoken, hcharged⟩ := allowance_covers
  have hrecent := pay_recent
  unfold afterPay at hrecent
  obtain ⟨hfresh, hauthorized⟩ := hrecent
  have hallows : (purchases sampleKit exampleManager "app.example" "2026-01").Allows (fun _ _ => True)
      { wallet := allowance } [pay "a1" 1000 0, pay "a2" 1000 1000] :=
    ⟨⟨pay_enabled pay_first.1, trivial⟩, ⟨pay_enabled hfresh, trivial⟩, trivial⟩
  exact ⟨hnotAdmin, rfl, htoken, hcharged, _, System.reaches_of_allows hallows, hauthorized⟩

end WalletToolbox.Permissions
