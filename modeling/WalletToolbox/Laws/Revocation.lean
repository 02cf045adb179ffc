import WalletToolbox.Laws.Requests

/-! # Revocation

A token that has been relinquished answers no lookup any more, but a grant may still be remembered:
in the manifest cache, as a recent one, or by a check that had found the token before.
Where none of these is left, a request whose last token is revoked is refused until the user grants
it again. -/

namespace WalletToolbox.Permissions.Requests

open WalletToolbox.Lib

variable {kit : Kit} {s s' : State} {c d r : Nat} {key : String} {call : Call} {a : Answers}
  {q : Query} {inner : Inner} {now now' : Nat}

/-! ## Tokens -/

/-- An output that answers a query. -/
structure Authorizes (kit : Kit) (now : Nat) (q : Query) (output : InnerOutput) : Prop where
  basket : output.basket = some (basketForType q.permissionType)
  tags : ∃ originTag ∈ buildOriginatorLookupValues kit.lowercase q.originator,
    ∀ tag ∈ ("originator " ++ originTag) :: q.filters.tags q.permissionType, tag ∈ output.tags
  token : (readToken kit (now / 1000) q.permissionType
    (normalizeOriginator kit.lowercase q.originator) q.filters output).isSome

/-- No token answers a query. -/
def Unauthorized (kit : Kit) (now : Nat) (q : Query) (inner : Inner) : Prop :=
  ∀ output ∈ inner.outputs, ¬Authorizes kit now q output

/-- A lookup then finds nothing. -/
theorem Unauthorized.tokens (h : Unauthorized kit now q inner) : q.tokens kit now inner = [] := by
  refine collectTokens_eq_nil fun output hmem => ?_
  obtain ⟨originTag, htag, hlisted⟩ := List.mem_flatMap.mp hmem
  obtain ⟨hstored, hmatches⟩ := List.mem_filter.mp (List.mem_of_mem_take hlisted)
  simp only [decide_eq_true_eq] at hmatches
  rw [← Option.not_isSome_iff_eq_none]
  exact fun htoken => h output hstored ⟨hmatches.1, ⟨originTag, htag, hmatches.2⟩, htoken⟩

/-- The only token of a query is relinquished. -/
theorem unauthorized_revoked {outpoint : Outpoint}
    (honly : ∀ output ∈ inner.outputs, Authorizes kit now q output → output.outpoint = outpoint) :
    Unauthorized kit now q (revokePermissionToken (basketForType q.permissionType) outpoint inner) := by
  intro output hmem hauth
  obtain ⟨old, hold, heq⟩ := List.mem_map.mp hmem
  split at heq
  next =>
    subst heq
    have hbasket := hauth.basket
    cases hbasket
  next hnot =>
    subst heq
    exact hnot ⟨honly old hold hauth, hauth.basket⟩

/-! ## The tokens of an originator -/

/-- A token that is found has the outpoint of its output. -/
theorem readToken_outpoint {n : Nat} {type : PermissionType} {normalized : String}
    {filters : TokenLookupFilters} {output : InnerOutput} {token : PermissionToken}
    (h : readToken kit n type normalized filters output = some token) :
    (⟨token.txid, token.outputIndex⟩ : Outpoint) = output.outpoint := by
  obtain ⟨script, _, h⟩ := Option.bind_eq_some_iff.mp h
  cases type <;> simp only at h <;> split at h
  all_goals cases h
  all_goals rfl

/-- A lookup without filters, expired tokens included, passes over no token that another finds. -/
theorem readToken_all {n : Nat} {type : PermissionType} {normalized : String}
    {filters : TokenLookupFilters} {output : InnerOutput}
    (h : (readToken kit n type normalized filters output).isSome) :
    (readToken kit n type normalized { includeExpired := true } output).isSome := by
  obtain ⟨token, h⟩ := Option.isSome_iff_exists.mp h
  obtain ⟨script, hscript, h⟩ := Option.bind_eq_some_iff.mp h
  rw [readToken, hscript, Option.bind_some]
  cases type <;> simp only at h ⊢ <;> split at h
  all_goals cases h
  all_goals simp_all

/-- Every outpoint with a token is collected. -/
theorem mem_collectTokens {read : InnerOutput → Option PermissionToken} {outputs : List InnerOutput}
    (hread : ∀ output token, read output = some token →
      (⟨token.txid, token.outputIndex⟩ : Outpoint) = output.outpoint)
    {seen : List Outpoint} {output : InnerOutput} (hmem : output ∈ outputs) (hsome : (read output).isSome)
    (hseen : output.outpoint ∉ seen) :
    ∃ token ∈ collectTokens read outputs seen,
      (⟨token.txid, token.outputIndex⟩ : Outpoint) = output.outpoint := by
  induction outputs generalizing seen with
  | nil => cases hmem
  | cons first rest ih =>
    rw [collectTokens]
    by_cases hfirst : first.outpoint ∈ seen
    · rw [if_pos hfirst]
      refine ih ((List.mem_cons.mp hmem).resolve_left fun h => ?_) hseen
      exact hseen (h ▸ hfirst)
    · rw [if_neg hfirst]
      cases htoken : read first with
      | none =>
        refine ih ((List.mem_cons.mp hmem).resolve_left fun h => ?_) hseen
        rw [h, htoken] at hsome
        cases hsome
      | some token =>
        by_cases hsame : output.outpoint = first.outpoint
        · exact ⟨token, List.mem_cons_self, (hread first token htoken).trans hsame.symm⟩
        · have hrest : output ∈ rest := (List.mem_cons.mp hmem).resolve_left fun h => hsame (by rw [h])
          obtain ⟨token', hmem', heq⟩ := @ih (first.outpoint :: seen) hrest (by simp [hsame, hseen])
          exact ⟨token', List.mem_cons_of_mem _ hmem', heq⟩

/-- An output after some tokens of a basket are relinquished: it is in no basket, or it is an old one
and not a token of the basket. -/
theorem mem_foldl_revoke {basket : String} {tokens : List PermissionToken} {output : InnerOutput}
    (h : output ∈ (tokens.foldl (fun inner token =>
      revokePermissionToken basket ⟨token.txid, token.outputIndex⟩ inner) inner).outputs) :
    output.basket = none ∨ output ∈ inner.outputs ∧ (output.basket = some basket →
      ∀ token ∈ tokens, (⟨token.txid, token.outputIndex⟩ : Outpoint) ≠ output.outpoint) := by
  induction tokens generalizing inner with
  | nil => exact .inr ⟨h, by simp⟩
  | cons token tokens ih =>
    rcases ih h with hnone | ⟨hmem, hrest⟩
    · exact .inl hnone
    · obtain ⟨old, hold, heq⟩ := List.mem_map.mp hmem
      split at heq
      next => exact .inl (heq ▸ rfl)
      next hnot =>
        subst heq
        refine .inr ⟨hold, fun hbasket => List.forall_mem_cons.mpr ⟨fun h => ?_, hrest hbasket⟩⟩
        exact hnot ⟨h.symm, hbasket⟩

/-- The tokens of one type are relinquished. -/
def revokeType (kit : Kit) (now : Nat) (originator : String) (inner : Inner) (type : PermissionType) :
    Inner :=
  (lookupPermissionTokens kit now type originator { includeExpired := true } inner).foldl
    (fun inner token => revokePermissionToken (basketForType type) ⟨token.txid, token.outputIndex⟩ inner)
    inner

theorem length_foldl_revoke {basket : String} (tokens : List PermissionToken) :
    (tokens.foldl (fun inner token =>
      revokePermissionToken basket ⟨token.txid, token.outputIndex⟩ inner) inner).outputs.length =
        inner.outputs.length := by
  induction tokens generalizing inner with
  | nil => rfl
  | cons token tokens ih => exact ih.trans (List.length_map _)

theorem length_revokeType (originator : String) (type : PermissionType) :
    (revokeType kit now originator inner type).outputs.length = inner.outputs.length :=
  length_foldl_revoke _

theorem mem_listOutputs (hlimit : inner.outputs.length ≤ 10000) {output : InnerOutput}
    (hmem : output ∈ inner.outputs) {basket : String} (hbasket : output.basket = some basket)
    {tags : List String} (htags : ∀ tag ∈ tags, tag ∈ output.tags) :
    output ∈ inner.listOutputs basket tags := by
  unfold Inner.listOutputs
  rw [List.take_of_length_le ((List.length_filter_le _ _).trans hlimit)]
  exact List.mem_filter.mpr ⟨hmem, by simpa using ⟨hbasket, htags⟩⟩

theorem unauthorized_revokeType (hlimit : inner.outputs.length ≤ 10000) :
    Unauthorized kit now q (revokeType kit now q.originator inner q.permissionType) := by
  intro output hmem hauth
  rcases mem_foldl_revoke hmem with hnone | ⟨hold, hrest⟩
  · rw [hauth.basket] at hnone
    cases hnone
  · obtain ⟨originTag, htag, htags⟩ := hauth.tags
    obtain ⟨token, htoken, heq⟩ : ∃ token ∈ lookupPermissionTokens kit now q.permissionType q.originator
        { includeExpired := true } inner,
        (⟨token.txid, token.outputIndex⟩ : Outpoint) = output.outpoint := by
      have hnone : ({ includeExpired := true } : TokenLookupFilters).tags q.permissionType = [] := by
        cases q.permissionType <;> rfl
      unfold lookupPermissionTokens
      simp only [hnone]
      refine mem_collectTokens (fun _ _ h => readToken_outpoint h) ?_ (readToken_all hauth.token)
        List.not_mem_nil
      rw [List.mem_flatMap]
      exact ⟨originTag, htag,
        mem_listOutputs hlimit hold hauth.basket (by simpa using htags _ List.mem_cons_self)⟩
    exact hrest hauth.basket token htoken heq

/-- Relinquishing other tokens authorizes nothing. -/
theorem Unauthorized.kept (h : Unauthorized kit now q inner) (originator : String)
    (types : List PermissionType) :
    Unauthorized kit now q (types.foldl (revokeType kit now originator) inner) := by
  induction types generalizing inner with
  | nil => exact h
  | cons type types ih =>
    rw [List.foldl_cons]
    have hstep : Unauthorized kit now q (revokeType kit now originator inner type) := by
      intro output hmem hauth
      rcases mem_foldl_revoke hmem with hnone | ⟨hold, _⟩
      · rw [hauth.basket] at hnone
        cases hnone
      · exact h output hold hauth
    exact ih hstep

theorem unauthorized_revokeTypes {types : List PermissionType} (hmem : q.permissionType ∈ types)
    (hlimit : inner.outputs.length ≤ 10000) :
    Unauthorized kit now q (types.foldl (revokeType kit now q.originator) inner) := by
  induction types generalizing inner with
  | nil => cases hmem
  | cons type types ih =>
    rw [List.foldl_cons]
    rcases List.mem_cons.mp hmem with rfl | hmem
    · exact (unauthorized_revokeType hlimit).kept _ types
    · exact ih hmem (by rwa [length_revokeType])

/-- No request of an originator is authorized any more once all of its tokens are revoked, as long as the
wallet has no more outputs than one lookup returns. -/
theorem unauthorized_revokeAll (hlimit : inner.outputs.length ≤ 10000) :
    Unauthorized kit now q (revokeAllForOriginator kit now q.originator inner) :=
  unauthorized_revokeTypes (by cases q.permissionType <;> decide) hlimit

/-! ## Numbers of requests -/

/-- Each active request has a number of its own, and no result yet; those that have left the map do
not come back. -/
structure Numbered (s : State) : Prop where
  allocated : ∀ key r, s.active key = some r → r < s.vault.cache.nextRequest
  injective : ∀ key key' r, s.active key = some r → s.active key' = some r → key = key'
  unset : ∀ key r, s.active key = some r → s.vault.cache.results.lookup r = none
  held : ∀ r, s.Held r → r < s.vault.cache.nextRequest ∧ ∀ key, s.active key ≠ some r
  set : ∀ r result, s.vault.cache.results.lookup r = some result → r < s.vault.cache.nextRequest

/-- What was held before a turn of another call, or is held by the call itself. -/
theorem held_proceed (kit : Kit) (a : Answers) (h : (proceed kit a s c).Held r) :
    (∃ call, (proceed kit a s c).calls c = some call ∧ call.Holds r) ∨ s.Held r := by
  obtain ⟨d, call, hcall, hholds⟩ := h
  by_cases hd : d = c
  · subst hd
    exact .inl ⟨call, hcall, hholds⟩
  · rcases proceed_other kit a s hd with heq | ⟨r', -, heq⟩
    · exact .inr ⟨d, call, heq.symm.trans hcall, hholds⟩
    · exact .inr ⟨d, call, (locking_wake hholds.locking).mp (heq.symm.trans hcall), hholds⟩

/-- The result of a request that has left the map is set. -/
theorem Numbered.sets (h : Numbered s) {request : Nat} {result : Except String Bool}
    (hrequest : s.Held request) (hactive : s'.vault.cache.activeRequests = s.vault.cache.activeRequests)
    (hresults : s'.vault.cache.results = s.vault.cache.results.insert request result)
    (hnext : s'.vault.cache.nextRequest = s.vault.cache.nextRequest)
    (hheld : ∀ r, s'.Held r → s.Held r) : Numbered s' := by
  have hsame : ∀ key, s'.active key = s.active key := fun key => by rw [State.active, hactive]; rfl
  obtain ⟨hlt, hnot⟩ := h.held request hrequest
  refine ⟨?_, ?_, fun key r hr => ?_, fun r hr => ?_, fun r result' hr => ?_⟩
  · simpa only [hsame, hnext] using h.allocated
  · simpa only [hsame] using h.injective
  · rw [hsame] at hr
    have hne : r ≠ request := by
      rintro rfl
      exact hnot key hr
    rw [hresults, AList.lookup_insert_ne hne]
    exact h.unset key r hr
  · simpa only [hsame, hnext] using h.held r (hheld r hr)
  · rw [hnext]
    by_cases hr' : r = request
    · exact hr' ▸ hlt
    · rw [hresults, AList.lookup_insert_ne hr'] at hr
      exact h.set r result' hr

theorem Numbered.proceed (h : Numbered s) (kit : Kit) (a : Answers) (hready : s.Ready c) :
    Numbered (proceed kit a s c) := by
  have hstep := proceed_requests kit a hready
  have hheld := fun r => held_proceed (s := s) (c := c) (r := r) kit a
  generalize Requests.proceed kit a s c = s' at hstep hheld
  cases hstep with
  | same new active results next self holds woken =>
    have hactive : ∀ key, s'.active key = s.active key := fun key => by rw [State.active, active]; rfl
    refine ⟨?_, ?_, ?_, ?_, ?_⟩
    · simpa only [hactive, next] using h.allocated
    · simpa only [hactive] using h.injective
    · simpa only [hactive, results] using h.unset
    · intro r hr
      rcases hheld r hr with ⟨call, hcall, hholds⟩ | hr
      · obtain rfl := Option.some_inj.mp (self.symm.trans hcall)
        exact absurd hholds (holds r)
      · simpa only [hactive, next] using h.held r hr
    · simpa only [results, next] using h.set
  | joins flow query call absent active results next self =>
    have hactive : ∀ key, s'.active key =
        if key = query.cacheKey then some s.vault.cache.nextRequest else s.active key := by
      intro key
      rw [State.active, active]
      by_cases hkey : key = query.cacheKey
      · subst hkey
        rw [if_pos rfl]
        exact AList.lookup_insert _
      · rw [if_neg hkey]
        exact AList.lookup_insert_ne hkey
    have hfresh : ∀ key, s.active key ≠ some s.vault.cache.nextRequest := fun key hr =>
      lt_irrefl _ (h.allocated key _ hr)
    refine ⟨fun key r hr => ?_, fun key key' r hr hr' => ?_, fun key r hr => ?_, fun r hr => ?_,
      fun r result hr => ?_⟩
    · rw [hactive] at hr
      rw [next]
      split at hr
      · cases hr
        exact Nat.lt_succ_self _
      · exact (h.allocated key r hr).trans (Nat.lt_succ_self _)
    · rw [hactive] at hr hr'
      split at hr <;> split at hr'
      next hkey hkey' => exact hkey.trans hkey'.symm
      next => cases hr; exact absurd hr' (hfresh key')
      next => cases hr'; exact absurd hr (hfresh key)
      next => exact h.injective key key' r hr hr'
    · rw [hactive] at hr
      rw [results]
      split at hr
      · cases hr
        rw [← Option.not_isSome_iff_eq_none]
        intro hsome
        obtain ⟨result, hresult⟩ := Option.isSome_iff_exists.mp hsome
        exact lt_irrefl _ (h.set _ result hresult)
      · exact h.unset key r hr
    · rcases hheld r hr with ⟨call, hcall, hholds⟩ | hr
      · obtain rfl := Option.some_inj.mp (self.symm.trans hcall)
        exact hholds.elim
      · obtain ⟨hlt, hnot⟩ := h.held r hr
        rw [next]
        refine ⟨hlt.trans (Nat.lt_succ_self _), fun key hr' => ?_⟩
        rw [hactive] at hr'
        split at hr'
        · cases hr'
          exact lt_irrefl _ hlt
        · exact hnot key hr'
    · rw [results] at hr
      rw [next]
      exact (h.set r result hr).trans (Nat.lt_succ_self _)
  | leaves flow query request result todo outcome call present active results next self =>
    have hactive : ∀ key r, s'.active key = some r → key ≠ query.cacheKey ∧ s.active key = some r := by
      intro key r hr
      rw [State.active, active] at hr
      have hkey : key ≠ query.cacheKey := by
        rintro rfl
        simp at hr
      exact ⟨hkey, (AList.lookup_erase_ne hkey).symm.trans hr⟩
    refine ⟨fun key r hr => next ▸ h.allocated key r (hactive key r hr).2,
      fun key key' r hr hr' => h.injective key key' r (hactive key r hr).2 (hactive key' r hr').2,
      fun key r hr => results ▸ h.unset key r (hactive key r hr).2, fun r hr => ?_,
      fun r result' hr => next ▸ h.set r result' (results ▸ hr)⟩
    rw [next]
    rcases hheld r hr with ⟨call, hcall, hholds⟩ | hr
    · obtain rfl := Option.some_inj.mp (self.symm.trans hcall)
      have hpresent : s.active query.cacheKey = some r := present.trans (congrArg some hholds)
      refine ⟨h.allocated _ r hpresent, fun key hr' => ?_⟩
      obtain ⟨hkey, hr'⟩ := hactive key r hr'
      exact hkey (h.injective key query.cacheKey r hr' hpresent)
    · obtain ⟨hlt, hnot⟩ := h.held r hr
      exact ⟨hlt, fun key hr' => hnot key (hactive key r hr').2⟩
  | notifies flow query request result todo outcome call active results next self =>
    refine h.sets ⟨c, _, call, rfl⟩ active results next fun r hr => ?_
    rcases hheld r hr with ⟨call', hcall, hholds⟩ | hr
    · obtain rfl := Option.some_inj.mp (self.symm.trans hcall)
      exact hholds.elim
    · exact hr
  | clears call active results next self =>
    have hempty : ∀ key r, s'.active key ≠ some r := fun key r hr => by
      rw [State.active, active] at hr
      simp at hr
    refine ⟨fun key r hr => absurd hr (hempty key r), fun key _ r hr => absurd hr (hempty key r),
      fun key r hr => absurd hr (hempty key r), fun r hr => ⟨?_, fun key => hempty key r⟩,
      fun r result' hr => next ▸ h.set r result' (results ▸ hr)⟩
    rw [next]
    rcases hheld r hr with ⟨call', hcall, hholds⟩ | hr
    · obtain rfl := Option.some_inj.mp (self.symm.trans hcall)
      obtain ⟨⟨key, r'⟩, hmem, rfl⟩ := List.mem_map.mp hholds
      exact h.allocated key r' (AList.mem_lookup_iff.mpr hmem)
    · exact (h.held r hr).1
  | drains request rest call active results next self =>
    refine h.sets ⟨c, _, call, List.mem_cons_self⟩ active results next fun r hr => ?_
    rcases hheld r hr with ⟨call', hcall, hholds⟩ | hr
    · obtain rfl := Option.some_inj.mp (self.symm.trans hcall)
      exact ⟨c, _, call, List.mem_cons_of_mem _ hholds⟩
    · exact hr

theorem Numbered.step {a : Action} (h : Numbered s) (kit : Kit) (henabled : a.Enabled s) :
    Numbered (a.next kit s) := by
  -- The requests stay, and no call comes to hold one.
  have hsame : ∀ s' : State, s'.vault.cache = s.vault.cache →
      (∀ r, s'.Held r → s.Held r) → Numbered s' := by
    intro s' hcache hheld
    have hactive : ∀ key, s'.active key = s.active key := fun key => by rw [State.active, hcache]; rfl
    refine ⟨?_, ?_, ?_, fun r hr => ?_, ?_⟩
    · simpa only [hactive, hcache] using h.allocated
    · simpa only [hactive] using h.injective
    · simpa only [hactive, hcache] using h.unset
    · simpa only [hactive, hcache] using h.held r (hheld r hr)
    · simpa only [hcache] using h.set
  have hinner : ∀ inner, Numbered (s.setInner inner) := fun inner => hsame _ rfl fun _ h => h
  have hbegins : ∀ c new, (∀ r, ¬Call.Holds r new) → Numbered (s.setCall c new) := by
    intro c new hnew
    refine hsame _ rfl ?_
    rintro r ⟨d, call, hcall, hholds⟩
    by_cases hd : d = c
    · subst hd
      obtain rfl := Option.some_inj.mp (State.calls_setCall_self.symm.trans hcall)
      exact absurd hholds (hnew r)
    · exact ⟨d, call, (State.calls_setCall_ne hd).symm.trans hcall, hholds⟩
  cases a with
  | ensure c flow query => exact hbegins c _ fun r => by cases flow <;> exact id
  | clearCaches c => exact hbegins c _ fun r => id
  | proceed c a => exact h.proceed kit a henabled.1
  | cancel c =>
    refine hsame _ rfl ?_
    rintro r ⟨d, call, hcall, hholds⟩
    by_cases hd : d = c
    · subst hd
      simp [Action.next] at hcall
    · refine ⟨d, call, ?_, hholds⟩
      simpa only [Action.next, Function.update_of_ne hd] using hcall
  | pass => exact hsame _ rfl fun _ h => h
  | grantPermission => exact hinner _
  | revokePermission => exact hinner _
  | revokeAllForOriginator => exact hinner _

theorem numbered_init (inner : Inner) : Numbered { vault := { inner } } where
  allocated key r hr := by simp [State.active] at hr
  injective key _ r hr := by simp [State.active] at hr
  unset key r hr := by simp [State.active] at hr
  held r hr := by
    obtain ⟨c, call, hcall, -⟩ := hr
    cases hcall
  set r result hr := by simp at hr

/-! ## A withdrawn request -/

/-- Nothing that a write leaves behind grants. -/
def Write.Harmless : Write → Prop
  | .insertCache granted _ => granted = false
  | .recordRecentGrant => False
  | .completeRequest result => result ≠ .ok true

/-- A check that has found no token and no grant. -/
def Phase.Clean : Phase → Prop
  | .grant _ => False
  | .writes todo outcome => (∀ write ∈ todo, write.Harmless) ∧ outcome ≠ .ok ()
  | .notify _ result todo outcome =>
    result ≠ .ok true ∧ (∀ write ∈ todo, write.Harmless) ∧ outcome ≠ .ok ()
  | .returned outcome => outcome ≠ .ok ()
  | _ => True

/-- The requests that a check may wait for. -/
def Phase.Awaits (r : Nat) : Phase → Prop
  | .told request => request = r
  | .waiting request => request = r
  | .woken request => request = r
  | _ => False

/-- A request of a key: it has no granting result, and whoever sets its result resolves the key. -/
structure RequestOf (s : State) (key : String) (r : Nat) : Prop where
  allocated : r < s.vault.cache.nextRequest
  active : ∀ key', s.active key' = some r → key' = key
  notified : ∀ c flow query result todo outcome,
    s.calls c = some (.check flow query (.notify r result todo outcome)) → query.cacheKey = key
  refused : s.vault.cache.results.lookup r ≠ some (.ok true)

/-- Two queries for the same tokens. -/
def SameRequest (q q' : Query) : Prop :=
  q'.permissionType = q.permissionType ∧ q'.originator = q.originator ∧ q'.filters = q.filters

variable (kit) in
/-- What holds from the revocation on: no token answers the request, and the checks under its key are
for the same request and know of no grant. -/
structure Withdrawn (q : Query) (s : State) : Prop where
  unauthorized : Unauthorized kit s.now q s.vault.inner
  same : ∀ c flow query phase, s.calls c = some (.check flow query phase) →
    query.cacheKey = q.cacheKey → SameRequest q query
  clean : ∀ c flow query phase, s.calls c = some (.check flow query phase) →
    query.cacheKey = q.cacheKey → phase.Clean
  awaited : ∀ c flow query phase r, s.calls c = some (.check flow query phase) →
    query.cacheKey = q.cacheKey → phase.Awaits r → RequestOf s q.cacheKey r
  forgotten : ∀ c flow query phase, s.calls c = some (.check flow query phase) →
    query.cacheKey = q.cacheKey → ¬s.vault.cache.Remembers s.now q.cacheKey

variable (kit) in
/-- The request stays withdrawn: no token for it is created, and the user does not grant it. -/
def StaysWithdrawn (q : Query) (s : State) (action : Action) : Prop :=
  Unauthorized kit (action.next kit s).now q (action.next kit s).vault.inner ∧
  ∀ c a flow query, action = .proceed c a → s.calls c = some (.check flow query .callback) →
    query.cacheKey = q.cacheKey → ∃ reason, firePermissionCallback a query.request = .deny reason

/-- A check under the key of the request begins only when no grant is remembered, and is for the same
request. -/
def Forgotten (q : Query) (s : State) : Action → Prop
  | .ensure _ _ query =>
    query.cacheKey = q.cacheKey → SameRequest q query ∧ ¬s.vault.cache.Remembers s.now q.cacheKey
  | _ => True

/-- A turn of a check of the withdrawn request. -/
theorem turn_clean {flow : Flow} {query : Query} {phase : Phase}
    (hcall : s.calls c = some (.check flow query phase)) (hsame : SameRequest q query)
    (hclean : phase.Clean) (hunauthorized : Unauthorized kit s.now q s.vault.inner)
    (hforgotten : ¬s.vault.cache.Remembers s.now query.cacheKey)
    (hrefused : ∀ r, phase.Awaits r → s.vault.cache.results.lookup r ≠ some (.ok true))
    (hnow : a.now = s.now)
    (hdenied : phase = .callback → ∃ reason, firePermissionCallback a query.request = .deny reason) :
    ∃ phase', (proceed kit a s c).calls c = some (.check flow query phase') ∧ phase'.Clean ∧
      ∀ r, phase'.Awaits r → phase.Awaits r ∨ s.active query.cacheKey = some r := by
  have hnoTokens : query.tokens kit a.now s.vault.inner = [] := by
    obtain ⟨htype, horiginator, hfilters⟩ := hsame
    rw [Query.tokens, htype, horiginator, hfilters, hnow]
    exact hunauthorized.tokens
  rw [proceed, hcall]
  cases phase with
  | checkCache =>
    simp only [proceedCheck]
    split
    next cache heq =>
      refine absurd (.inl ?_) hforgotten
      rw [PermissionCache.checkCache] at heq
      split at heq
      next entry hentry =>
        split at heq
        next hlive =>
          simp only [Prod.mk.injEq, Option.some_inj] at heq
          exact ⟨entry, hentry, heq.1, hlive⟩
        next => simp at heq
      next => simp at heq
    next => exact ⟨_, State.calls_setCall_self, by simp [Phase.Clean], fun r h => h.elim⟩
    next => exact ⟨_, State.calls_setCall_self, trivial, fun r h => h.elim⟩
  | isRecentGrant =>
    simp only [proceedCheck]
    split
    next hrecent =>
      refine absurd (.inr ?_) hforgotten
      rw [PermissionCache.isRecentGrant] at hrecent
      split at hrecent
      next whenGranted hgranted => exact ⟨whenGranted, hgranted, by simpa using hrecent⟩
      next => cases hrecent
    next =>
      refine ⟨_, State.calls_setCall_self, ?_, ?_⟩
      · cases flow <;> trivial
      · cases flow <;> exact fun r h => h.elim
  | tryDeduplicate =>
    simp only [proceedCheck, PermissionCache.tryDeduplicate]
    cases hactive : s.vault.cache.activeRequests.lookup query.cacheKey with
    | some request =>
      refine ⟨_, State.calls_setCall_self, trivial, fun r hr => .inr ?_⟩
      exact hactive.trans (congrArg some hr)
    | none => exact ⟨_, State.calls_setCall_self, trivial, fun r h => h.elim⟩
  | told request => exact ⟨_, State.calls_setCall_self, trivial, fun r hr => .inl hr⟩
  | waiting request => exact ⟨_, hcall, trivial, fun r hr => .inl hr⟩
  | woken request =>
    refine ⟨_, State.calls_setCall_self, ?_, fun r h => h.elim⟩
    have hresult := hrefused request rfl
    rw [Phase.Clean]
    split
    next heq => exact absurd heq hresult
    next => simp
    next => simp
  | lookup =>
    simp only [proceedCheck]
    split
    next e _ =>
      refine ⟨_, State.calls_setCall_self, ⟨?_, by simp⟩, fun r h => h.elim⟩
      cases flow <;> simp [Flow.failed, Write.Harmless]
    next =>
      have hnotFound : flow.found kit a query s.vault.inner = false := by
        cases flow <;> simp [Flow.found, hnoTokens]
      rw [hnotFound]
      exact ⟨_, State.calls_setCall_self, trivial, fun r h => h.elim⟩
  | callback =>
    obtain ⟨reason, hdeny⟩ := hdenied rfl
    simp only [proceedCheck, hdeny]
    refine ⟨_, State.calls_setCall_self, ⟨?_, by simp⟩, fun r h => h.elim⟩
    cases flow <;> simp [Flow.denied, Write.Harmless]
  | grant => exact hclean.elim
  | writes todo outcome =>
    obtain ⟨hharmless, houtcome⟩ := hclean
    cases todo with
    | nil => exact ⟨_, State.calls_setCall_self, houtcome, fun r h => h.elim⟩
    | cons write todo =>
      have hrest := fun write hmem => hharmless write (List.mem_cons_of_mem _ hmem)
      cases write with
      | insertCache => exact ⟨_, State.calls_setCall_self, ⟨hrest, houtcome⟩, fun r h => h.elim⟩
      | recordRecentGrant => exact ⟨_, State.calls_setCall_self, ⟨hrest, houtcome⟩, fun r h => h.elim⟩
      | completeRequest result =>
        simp only [proceedCheck, PermissionCache.takeRequest]
        cases s.vault.cache.activeRequests.lookup query.cacheKey with
        | none => exact ⟨_, State.calls_setCall_self, ⟨hrest, houtcome⟩, fun r h => h.elim⟩
        | some request =>
          exact ⟨_, State.calls_setCall_self,
            ⟨hharmless _ List.mem_cons_self, hrest, houtcome⟩, fun r h => h.elim⟩
  | notify request result todo outcome =>
    obtain ⟨-, hharmless, houtcome⟩ := hclean
    refine ⟨.writes todo outcome, ?_, ⟨hharmless, houtcome⟩, fun r h => h.elim⟩
    simp [proceedCheck, Call.wake]
  | returned outcome => exact ⟨_, hcall, hclean, fun r hr => .inl hr⟩

theorem remembers_mono {cache cache' : PermissionCache}
    (h : cache'.Remembers now key)
    (hmanifest : ∀ entry, cache'.manifestCache.lookup key = some entry → entry.granted = true →
      cache.manifestCache.lookup key = some entry)
    (hrecent : ∀ whenGranted, cache'.recentGrants.lookup key = some whenGranted →
      cache.recentGrants.lookup key = some whenGranted) : cache.Remembers now key := by
  rcases h with ⟨entry, hentry, hgranted, hlive⟩ | ⟨whenGranted, hwhen, hwindow⟩
  · exact .inl ⟨entry, hmanifest entry hentry hgranted, hgranted, hlive⟩
  · exact .inr ⟨whenGranted, hrecent whenGranted hwhen, hwindow⟩

/-- A turn leaves no grant behind, unless it is a write that says so. -/
theorem remembers_proceed (kit : Kit) (a : Answers)
    (hharmless : ∀ flow query write todo outcome,
      s.calls c = some (.check flow query (.writes (write :: todo) outcome)) →
      query.cacheKey = key → write.Harmless)
    (h : (proceed kit a s c).vault.cache.Remembers (proceed kit a s c).now key) :
    s.vault.cache.Remembers s.now key := by
  have hsame : ∀ s' : State, s'.vault.cache.manifestCache = s.vault.cache.manifestCache →
      s'.vault.cache.recentGrants = s.vault.cache.recentGrants → s'.now = s.now →
      s'.vault.cache.Remembers s'.now key → s.vault.cache.Remembers s.now key := by
    intro s' hmanifest hrecent hnow h
    rw [hnow] at h
    exact remembers_mono h (fun _ hentry _ => hmanifest ▸ hentry) fun _ hwhen => hrecent ▸ hwhen
  rw [proceed] at h
  split at h
  next flow query phase hcall =>
    cases phase with
    | checkCache =>
      have hcache : ∀ answer cache, s.vault.cache.checkCache s.now query.cacheKey = (answer, cache) →
          cache.Remembers s.now key → s.vault.cache.Remembers s.now key := by
        intro answer cache heq hremembers
        rw [PermissionCache.checkCache] at heq
        split at heq
        · split at heq
          · cases heq
            exact hremembers
          · cases heq
            refine remembers_mono hremembers (fun entry hentry _ => ?_) fun _ hwhen => hwhen
            by_cases hkey : key = query.cacheKey
            · subst hkey
              simp at hentry
            · exact (AList.lookup_erase_ne hkey).symm.trans hentry
        · cases heq
          exact hremembers
      simp only [proceedCheck] at h
      split at h
      all_goals
        next heq => exact hcache _ _ heq h
    | writes todo outcome =>
      cases todo with
      | nil => exact hsame _ rfl rfl rfl h
      | cons write todo =>
        cases write with
        | insertCache granted ttl =>
          refine remembers_mono h (fun entry hentry hgranted => ?_) fun _ hwhen => hwhen
          by_cases hkey : key = query.cacheKey
          · have hnot : granted = false := hharmless _ _ _ _ _ hcall hkey.symm
            subst hkey
            have hinsert := hentry.symm.trans (AList.lookup_insert _)
            cases hinsert
            rw [hnot] at hgranted
            cases hgranted
          · exact (AList.lookup_insert_ne hkey).symm.trans hentry
        | recordRecentGrant =>
          refine remembers_mono h (fun _ hentry _ => hentry) fun whenGranted hwhen => ?_
          by_cases hkey : key = query.cacheKey
          · exact (hharmless _ _ _ _ _ hcall hkey.symm).elim
          · exact (AList.lookup_insert_ne hkey).symm.trans hwhen
        | completeRequest result =>
          simp only [proceedCheck, PermissionCache.takeRequest] at h
          cases hactive : s.vault.cache.activeRequests.lookup query.cacheKey with
          | none =>
            simp only [hactive, Option.map_none] at h
            exact hsame _ rfl rfl rfl h
          | some request =>
            simp only [hactive, Option.map_some] at h
            exact hsame { (s.setCache { s.vault.cache with
              activeRequests := s.vault.cache.activeRequests.erase query.cacheKey }).setCall c
              (.check flow query (.notify request result todo outcome)) with lock := some c }
              rfl rfl rfl h
    | tryDeduplicate =>
      simp only [proceedCheck, PermissionCache.tryDeduplicate] at h
      cases hactive : s.vault.cache.activeRequests.lookup query.cacheKey with
      | some request =>
        simp only [hactive] at h
        exact hsame _ rfl rfl rfl h
      | none =>
        simp only [hactive] at h
        exact remembers_mono h (fun _ hentry _ => hentry) fun _ hwhen => hwhen
    | grant => exact h
    | notify => exact remembers_mono h (fun _ hentry _ => hentry) fun _ hwhen => hwhen
    | isRecentGrant =>
      simp only [proceedCheck] at h
      split at h <;> exact hsame _ rfl rfl rfl h
    | lookup =>
      simp only [proceedCheck] at h
      (repeat' split at h) <;> exact hsame _ rfl rfl rfl h
    | _ => exact h
  · refine remembers_mono h (fun entry hentry _ => ?_) fun _ hwhen => hwhen
    simp [State.setCall, State.setCache] at hentry
  · refine remembers_mono h (fun _ hentry _ => hentry) fun whenGranted hwhen => ?_
    simp [State.setCall, State.setCache] at hwhen
  · exact remembers_mono h (fun _ hentry _ => hentry) fun _ hwhen => hwhen
  · exact remembers_mono h (fun _ hentry _ => hentry) fun _ hwhen => hwhen
  · exact h
  · exact h

/-- A request of a key stays one. -/
theorem RequestOf.proceed (h : RequestOf s key r) (kit : Kit) (a : Answers) (hready : s.Ready c)
    (hresult : ∀ flow query result todo outcome,
      s.calls c = some (.check flow query (.notify r result todo outcome)) →
      query.cacheKey = key → result ≠ .ok true) : RequestOf (proceed kit a s c) key r := by
  have hstep := proceed_requests kit a hready
  refine ⟨h.allocated.trans_le hstep.turned.next, fun key' hr => ?_, ?_, ?_⟩
  · rcases hstep.turned.active key' r hr with hr | hr
    · exact h.active key' hr
    · exact absurd h.allocated (hr ▸ lt_irrefl _)
  · intro d flow query result todo outcome hcall
    by_cases hd : d = c
    · subst hd
      generalize Requests.proceed kit a s d = s' at hstep hcall
      cases hstep with
      | same new _ _ _ self holds =>
        obtain rfl := Option.some_inj.mp (self.symm.trans hcall)
        exact absurd rfl (holds r)
      | leaves _ _ request _ _ _ _ present _ _ _ self =>
        cases Option.some_inj.mp (self.symm.trans hcall)
        exact h.active _ present
      | joins _ _ _ _ _ _ _ self => cases Option.some_inj.mp (self.symm.trans hcall)
      | notifies _ _ _ _ _ _ _ _ _ _ self => cases Option.some_inj.mp (self.symm.trans hcall)
      | clears _ _ _ _ self => cases Option.some_inj.mp (self.symm.trans hcall)
      | drains _ _ _ _ _ _ self => cases Option.some_inj.mp (self.symm.trans hcall)
    · rcases proceed_other kit a s hd with heq | ⟨r', -, heq⟩
      · exact h.notified d flow query result todo outcome (heq.symm.trans hcall)
      · have hlocking : (Call.check flow query (.notify r result todo outcome)).Locking := trivial
        exact h.notified d flow query result todo outcome
          ((locking_wake hlocking).mp (heq.symm.trans hcall))
  · generalize Requests.proceed kit a s c = s' at hstep
    cases hstep with
    | same new active results => rw [results]; exact h.refused
    | joins flow query call absent active results => rw [results]; exact h.refused
    | leaves flow query request result todo outcome call present active results =>
      rw [results]
      exact h.refused
    | clears call active results => rw [results]; exact h.refused
    | notifies flow query request result todo outcome call active results =>
      rw [results]
      by_cases hr : r = request
      · subst hr
        rw [AList.lookup_insert]
        intro heq
        exact hresult flow query result todo outcome call (h.notified _ _ _ _ _ _ call)
          (Option.some_inj.mp heq)
      · rw [AList.lookup_insert_ne hr]
        exact h.refused
    | drains request rest call active results =>
      rw [results]
      by_cases hr : r = request
      · subst hr
        rw [AList.lookup_insert]
        simp
      · rw [AList.lookup_insert_ne hr]
        exact h.refused

/-- Another call after a turn, and what it was before. -/
theorem check_proceed_other {flow : Flow} {query : Query} {phase : Phase} (kit : Kit) (a : Answers)
    (hd : d ≠ c) (h : (proceed kit a s c).calls d = some (.check flow query phase)) :
    ∃ phase', s.calls d = some (.check flow query phase') ∧ (phase'.Clean → phase.Clean) ∧
      ∀ r, phase.Awaits r → phase'.Awaits r := by
  rcases proceed_other kit a s hd with heq | ⟨r', -, heq⟩
  · exact ⟨phase, heq.symm.trans h, id, fun _ => id⟩
  · obtain ⟨call, hcall, hwake⟩ := Option.map_eq_some_iff.mp (heq.symm.trans h)
    cases call with
    | check flow' query' phase' =>
      cases phase' with
      | waiting r'' =>
        rw [Call.wake] at hwake
        split at hwake
        all_goals
          cases hwake
          exact ⟨_, hcall, fun _ => trivial, fun _ h => h⟩
      | _ =>
        cases hwake
        exact ⟨_, hcall, id, fun _ => id⟩
    | _ => cases hwake

theorem Withdrawn.turn (h : Withdrawn kit q s) (hnumbered : Numbered s) (hready : s.Ready c)
    (hnow : a.now = s.now) (hstays : StaysWithdrawn kit q s (.proceed c a)) :
    Withdrawn kit q (proceed kit a s c) := by
  -- Every check under the key was one before the turn, of the same query.
  have hbefore : ∀ d flow query phase,
      (proceed kit a s c).calls d = some (.check flow query phase) → query.cacheKey = q.cacheKey →
      ∃ phase', s.calls d = some (.check flow query phase') ∧ phase.Clean ∧
        ∀ r, phase.Awaits r → phase'.Awaits r ∨ s.active q.cacheKey = some r := by
    intro d flow query phase hcall hkey
    by_cases hd : d = c
    · subst hd
      obtain ⟨phase', hcall'⟩ := check_of_proceed hcall
      obtain ⟨phase'', hself, hclean, hawaits⟩ := turn_clean (a := a) hcall'
        (h.same d flow query phase' hcall' hkey) (h.clean d flow query phase' hcall' hkey)
        h.unauthorized (hkey ▸ h.forgotten d flow query phase' hcall' hkey)
        (fun r hr => (h.awaited d flow query phase' r hcall' hkey hr).refused) hnow
        (fun hphase => hstays.2 d a flow query rfl (hphase ▸ hcall') hkey)
      cases Option.some_inj.mp (hself.symm.trans hcall)
      exact ⟨phase', hcall', hclean, fun r hr => hkey ▸ hawaits r hr⟩
    · obtain ⟨phase', hcall', hclean, hawaits⟩ := check_proceed_other kit a hd hcall
      exact ⟨phase', hcall', hclean (h.clean d flow query phase' hcall' hkey),
        fun r hr => .inl (hawaits r hr)⟩
  refine ⟨hstays.1, ?_, ?_, ?_, ?_⟩
  · intro d flow query phase hcall hkey
    obtain ⟨phase', hcall', -⟩ := hbefore d flow query phase hcall hkey
    exact h.same d flow query phase' hcall' hkey
  · intro d flow query phase hcall hkey
    obtain ⟨phase', -, hclean, -⟩ := hbefore d flow query phase hcall hkey
    exact hclean
  · intro d flow query phase r hcall hkey hawaits
    obtain ⟨phase', hcall', -, hawaits'⟩ := hbefore d flow query phase hcall hkey
    have hrequest : RequestOf s q.cacheKey r := by
      rcases hawaits' r hawaits with hr | hr
      · exact h.awaited d flow query phase' r hcall' hkey hr
      · refine ⟨hnumbered.allocated _ r hr, fun key' hr' => hnumbered.injective _ _ r hr' hr, ?_, ?_⟩
        · intro e flow' query' result todo outcome he
          exact absurd hr ((hnumbered.held r ⟨e, _, he, rfl⟩).2 _)
        · rw [hnumbered.unset _ r hr]
          simp
    refine hrequest.proceed kit a hready ?_
    intro flow' query' result todo outcome he hkey'
    exact (h.clean c flow' query' _ he hkey').1
  · intro d flow query phase hcall hkey
    obtain ⟨phase', hcall', -⟩ := hbefore d flow query phase hcall hkey
    intro hremembers
    refine h.forgotten d flow query phase' hcall' hkey (remembers_proceed kit a ?_ hremembers)
    intro flow' query' write todo outcome hc hkey'
    exact (h.clean c flow' query' _ hc hkey').1 write List.mem_cons_self

theorem remembers_earlier {cache : PermissionCache} (h : cache.Remembers now' key) (hle : now ≤ now') :
    cache.Remembers now key := by
  rcases h with ⟨entry, hentry, hgranted, hlive⟩ | ⟨whenGranted, hwhen, hwindow⟩
  · exact .inl ⟨entry, hentry, hgranted, by omega⟩
  · exact .inr ⟨whenGranted, hwhen, by omega⟩

/-- The cache stays, time may pass, and the checks are those that there were or new ones that begin
when no grant is remembered. -/
theorem Withdrawn.between (h : Withdrawn kit q s) (hcache : s'.vault.cache = s.vault.cache)
    (hnow : s.now ≤ s'.now) (hunauthorized : Unauthorized kit s'.now q s'.vault.inner)
    (hcalls : ∀ d flow query phase, s'.calls d = some (.check flow query phase) →
      s.calls d = some (.check flow query phase) ∨ phase = flow.start ∧
        (query.cacheKey = q.cacheKey →
          SameRequest q query ∧ ¬s.vault.cache.Remembers s.now q.cacheKey)) :
    Withdrawn kit q s' := by
  have hlater : ¬s.vault.cache.Remembers s.now q.cacheKey →
      ¬s'.vault.cache.Remembers s'.now q.cacheKey := by
    intro hnot hremembers
    rw [hcache] at hremembers
    exact hnot (remembers_earlier hremembers hnow)
  refine ⟨hunauthorized, ?_, ?_, ?_, ?_⟩
  · intro d flow query phase hcall hkey
    rcases hcalls d flow query phase hcall with hcall | ⟨-, hbegins⟩
    · exact h.same d flow query phase hcall hkey
    · exact (hbegins hkey).1
  · intro d flow query phase hcall hkey
    rcases hcalls d flow query phase hcall with hcall | ⟨rfl, -⟩
    · exact h.clean d flow query phase hcall hkey
    · cases flow <;> trivial
  · intro d flow query phase r hcall hkey hawaits
    rcases hcalls d flow query phase hcall with hcall | ⟨rfl, -⟩
    · have hrequest := h.awaited d flow query phase r hcall hkey hawaits
      refine ⟨hcache ▸ hrequest.allocated, ?_, ?_, hcache ▸ hrequest.refused⟩
      · intro key' hr
        rw [State.active, hcache] at hr
        exact hrequest.active key' hr
      · intro e flow' query' result todo outcome he
        rcases hcalls e flow' query' _ he with he | ⟨hstart, -⟩
        · exact hrequest.notified e flow' query' result todo outcome he
        · cases flow' <;> cases hstart
    · cases flow <;> exact hawaits.elim
  · intro d flow query phase hcall hkey
    rcases hcalls d flow query phase hcall with hcall | ⟨-, hbegins⟩
    · exact hlater (h.forgotten d flow query phase hcall hkey)
    · exact hlater (hbegins hkey).2

/-- One action. -/
theorem Withdrawn.step {action : Action} (h : Withdrawn kit q s) (hnumbered : Numbered s)
    (henabled : action.Enabled s) (hstays : StaysWithdrawn kit q s action)
    (hforgotten : Forgotten q s action) : Withdrawn kit q (action.next kit s) := by
  have hinner : ∀ inner, Unauthorized kit s.now q inner → Withdrawn kit q (s.setInner inner) :=
    fun inner hunauthorized => h.between rfl le_rfl hunauthorized fun _ _ _ _ hcall => .inl hcall
  cases action with
  | ensure c flow query =>
    refine h.between rfl le_rfl hstays.1 fun d flow' query' phase hcall => ?_
    by_cases hd : d = c
    · subst hd
      cases Option.some_inj.mp (State.calls_setCall_self.symm.trans hcall)
      exact .inr ⟨rfl, hforgotten⟩
    · exact .inl ((State.calls_setCall_ne hd).symm.trans hcall)
  | clearCaches c =>
    refine h.between rfl le_rfl hstays.1 fun d flow' query' phase hcall => .inl ?_
    by_cases hd : d = c
    · subst hd
      cases Option.some_inj.mp (State.calls_setCall_self.symm.trans hcall)
    · exact (State.calls_setCall_ne hd).symm.trans hcall
  | proceed c a => exact h.turn hnumbered henabled.1 henabled.2 hstays
  | cancel c =>
    refine h.between rfl le_rfl hstays.1 fun d flow' query' phase hcall => .inl ?_
    by_cases hd : d = c
    · subst hd
      simp [Action.next] at hcall
    · simpa only [Action.next, Function.update_of_ne hd] using hcall
  | pass milliseconds =>
    exact h.between rfl (Nat.le_add_right _ _) hstays.1 fun _ _ _ _ hcall => .inl hcall
  | grantPermission request expiry txid =>
    exact hinner (createPermissionToken kit request expiry txid s.vault.inner) hstays.1
  | revokePermission outpoint type =>
    exact hinner (revokePermissionToken (basketForType type) outpoint s.vault.inner) hstays.1
  | revokeAllForOriginator originator =>
    have hunauthorized := hstays.1
    rw [Action.next] at hunauthorized ⊢
    generalize Permissions.revokeAllForOriginator kit s.now originator s.vault.inner = inner
      at hunauthorized ⊢
    exact hinner inner hunauthorized

/-! ## Revocation takes effect -/

variable (kit) in
/-- A revocation of the only token that answers a query, or of all tokens of an originator, every
one of which is relinquished. -/
def Revokes (q : Query) (s : State) : Action → Prop
  | .revokePermission outpoint type =>
    type = q.permissionType ∧
      ∀ output ∈ s.vault.inner.outputs, Authorizes kit s.now q output → output.outpoint = outpoint
  | .revokeAllForOriginator originator =>
    Unauthorized kit s.now q (Permissions.revokeAllForOriginator kit s.now originator s.vault.inner)
  | _ => False

theorem revokes_all (hlimit : s.vault.inner.outputs.length ≤ 10000) :
    Revokes kit q s (.revokeAllForOriginator q.originator) :=
  unauthorized_revokeAll hlimit

/-- No check under the key of a query is under way. -/
def Idle (q : Query) (s : State) : Prop :=
  ∀ c flow query phase, s.calls c = some (.check flow query phase) → query.cacheKey ≠ q.cacheKey

theorem Revokes.withdrawn {action : Action} (h : Revokes kit q s action) (hidle : Idle q s) :
    Withdrawn kit q (action.next kit s) := by
  have hset : ∀ inner, Unauthorized kit s.now q inner → Withdrawn kit q (s.setInner inner) := by
    intro inner hunauthorized
    exact ⟨hunauthorized, fun c flow query phase hcall hkey => absurd hkey (hidle c _ _ _ hcall),
      fun c flow query phase hcall hkey => absurd hkey (hidle c _ _ _ hcall),
      fun c flow query phase r hcall hkey => absurd hkey (hidle c _ _ _ hcall),
      fun c flow query phase hcall hkey => absurd hkey (hidle c _ _ _ hcall)⟩
  cases action with
  | revokePermission outpoint type =>
    obtain ⟨rfl, honly⟩ := h
    exact hset _ (unauthorized_revoked honly)
  | revokeAllForOriginator originator =>
    rw [Revokes] at h
    rw [Action.next]
    exact hset _ h
  | _ => exact h.elim

/-- A request whose tokens are revoked while no check of it is under way stays refused, until a token
for it is created or the user grants it, if its checks begin only when no grant is remembered. -/
theorem revocation_takes_effect {revocation : Action}
    (hreach : ((requests kit).startingAt { vault := { inner } }).Reaches (fun _ _ => True) s)
    (hrevokes : Revokes kit q s revocation) (hidle : Idle q s)
    (hlater : ((requests kit).startingAt (revocation.next kit s)).Reaches
      (fun s action => StaysWithdrawn kit q s action ∧ Forgotten q s action) s') :
    ∀ c flow query, s'.calls c = some (.check flow query (.returned (.ok ()))) →
      query.cacheKey ≠ q.cacheKey := by
  have hnumbered : Numbered s := hreach.inv (I := Numbered) (numbered_init inner)
    fun s action h henabled _ => h.step kit henabled
  have henabled : revocation.Enabled s := by
    cases revocation <;> first | exact hrevokes.elim | trivial
  have hwithdrawn : Withdrawn kit q s' ∧ Numbered s' := by
    refine hlater.inv (I := fun s => Withdrawn kit q s ∧ Numbered s)
      ⟨hrevokes.withdrawn hidle, hnumbered.step kit henabled⟩ ?_
    rintro s action ⟨hw, hn⟩ henabled ⟨hstays, hforgotten⟩
    exact ⟨hw.step hn henabled hstays hforgotten, hn.step kit henabled⟩
  intro c flow query hcall hkey
  exact hwithdrawn.1.clean c flow query _ hcall hkey rfl

/-! ## A run -/

/-- A check with a number of turns. -/
def checkWith (c turns : Nat) : List Action :=
  .ensure c .resolve todoQuery :: List.replicate turns (.proceed c noCallback)

/-- The token of the request. -/
def tokenTxid : String := "b16e2fa9ba8b3b3c1b1c1d0a3a38a5bc8ee0c7d8d3e7ed2f5f5c1f0b5a4d3c2b"

/-- A wallet with the token. -/
def tokenWallet : Inner := createPermissionToken sampleKit todoRequest none tokenTxid {}

def revocation : Action := .revokePermission ⟨tokenTxid, 0⟩ .basketAccess

/-- The wallet after the revocation. -/
def revokedWallet : Inner := revokePermissionToken basketDbap ⟨tokenTxid, 0⟩ tokenWallet

theorem revokes_token (h : s.vault.inner = tokenWallet) : Revokes sampleKit todoQuery s revocation := by
  have honly : ∀ output ∈ tokenWallet.outputs, output.outpoint = ⟨tokenTxid, 0⟩ := by decide +kernel
  exact ⟨rfl, fun output hmem _ => honly output (h ▸ hmem)⟩

theorem revokedWallet_unauthorized : Unauthorized sampleKit 0 todoQuery revokedWallet := by
  have honly : ∀ output ∈ tokenWallet.outputs, output.outpoint = ⟨tokenTxid, 0⟩ := by decide +kernel
  exact unauthorized_revoked (q := todoQuery) fun output hmem _ => honly output hmem

/-- A step at time zero that leaves the wallet as it is and asks no user. -/
def Unattended (s : State) (action : Action) : Prop :=
  (action.next sampleKit s).vault.inner = revokedWallet ∧ (action.next sampleKit s).now = 0 ∧
    match action with
    | .proceed _ a => a.callback.isNone
    | _ => True

instance (s : State) : ∀ action, Decidable (Unattended s action)
  | .proceed _ a => inferInstanceAs (Decidable (_ ∧ _ ∧ a.callback.isNone = true))
  | .ensure .. | .clearCaches _ | .cancel _ | .pass _ | .grantPermission .. | .revokePermission ..
  | .revokeAllForOriginator _ => inferInstanceAs (Decidable (_ ∧ _ ∧ True))

theorem Unattended.staysWithdrawn {action : Action} (h : Unattended s action) :
    StaysWithdrawn sampleKit todoQuery s action := by
  obtain ⟨hinner, hnow, hcallback⟩ := h
  refine ⟨by rw [hinner, hnow]; exact revokedWallet_unauthorized, ?_⟩
  rintro c a flow query rfl - -
  exact ⟨_, by rw [firePermissionCallback, Option.isNone_iff_eq_none.mp hcallback]⟩

/-- The same, where a check begins with nothing in the caches. -/
def Afresh (s : State) (action : Action) : Prop :=
  Unattended s action ∧
    match action with
    | .ensure _ _ query => query = todoQuery ∧ s.vault.cache.manifestCache.entries = [] ∧
        s.vault.cache.recentGrants.entries = []
    | _ => True

instance (s : State) : ∀ action, Decidable (Afresh s action)
  | .ensure .. => inferInstanceAs (Decidable (_ ∧ _ ∧ _ ∧ _))
  | .proceed .. | .clearCaches _ | .cancel _ | .pass _ | .grantPermission .. | .revokePermission ..
  | .revokeAllForOriginator _ => inferInstanceAs (Decidable (_ ∧ True))

theorem Afresh.forgotten {action : Action} (h : Afresh s action) : Forgotten todoQuery s action := by
  cases action with
  | ensure c flow query =>
    obtain ⟨-, rfl, hmanifest, hrecent⟩ := h
    intro _
    refine ⟨⟨rfl, rfl, rfl⟩, ?_⟩
    rintro (⟨entry, hentry, -⟩ | ⟨whenGranted, hwhen, -⟩)
    · rw [AList.lookup, hmanifest] at hentry
      cases hentry
    · rw [AList.lookup, hrecent] at hwhen
      cases hwhen
  | _ => trivial

/-- The token has been revoked before it was used. -/
def revokedState : State := revocation.next sampleKit { vault := { inner := tokenWallet } }

/-- A check of the request, from the cache to the user and back. -/
def refusedState : State := (requests sampleKit).after revokedState (checkWith 0 9)

/-- The check comes to its end and is refused. -/
theorem revocation_takes_effect_unused :
    refusedState.calls 0 = some (.check .resolve todoQuery
        (.returned (.error (.notImplemented "No permission callback registered")))) ∧
      ∀ c flow query, refusedState.calls c = some (.check flow query (.returned (.ok ()))) →
        query.cacheKey ≠ todoQuery.cacheKey := by
  have hallows : (requests sampleKit).Allows Afresh revokedState (checkWith 0 9) := by
    decide +kernel
  refine ⟨rfl, revocation_takes_effect .init (revokes_token rfl) ?_
    ((System.reaches_of_allows hallows).mono fun s action h => ⟨h.1.staysWithdrawn, h.forgotten⟩)⟩
  intro c flow query phase hcall
  cases hcall

/-- The check that has succeeded. -/
def Call.succeeded : Call → Option (Flow × Query)
  | .check flow query (.returned (.ok ())) => some (flow, query)
  | _ => none

theorem calls_of_succeeded {flow : Flow} {query : Query}
    (h : (s.calls c).bind Call.succeeded = some (flow, query)) :
    s.calls c = some (.check flow query (.returned (.ok ()))) := by
  obtain ⟨call, hcall, hsucceeded⟩ := Option.bind_eq_some_iff.mp h
  rw [hcall, Option.some_inj]
  unfold Call.succeeded at hsucceeded
  split at hsucceeded
  · cases hsucceeded
    rfl
  · cases hsucceeded

/-- The token has been used by a check. -/
def usedState : State :=
  (requests sampleKit).after { vault := { inner := tokenWallet } } (checkWith 0 9)

/-- The next check finds the answer in the cache. -/
theorem revoked_grant_remembered :
    ¬∀ kit q inner s revocation s',
      ((requests kit).startingAt { vault := { inner } }).Reaches (fun _ _ => True) s →
      Revokes kit q s revocation →
      ((requests kit).startingAt (revocation.next kit s)).Reaches (StaysWithdrawn kit q) s' →
      ∀ c flow query, s.calls c = none →
        s'.calls c = some (.check flow query (.returned (.ok ()))) → query.cacheKey ≠ q.cacheKey := by
  intro h
  have hused : ((requests sampleKit).startingAt { vault := { inner := tokenWallet } }).Reaches
      (fun _ _ => True) usedState := by
    refine System.reaches_of_allows (m := requests sampleKit) ?_
    decide +kernel
  have hallows : (requests sampleKit).Allows Unattended (revocation.next sampleKit usedState)
      (checkWith 1 1) := by
    decide +kernel
  refine h sampleKit todoQuery tokenWallet usedState revocation _ hused (revokes_token ?_)
    ((System.reaches_of_allows hallows).mono fun s action h => h.staysWithdrawn) 1 .resolve todoQuery ?_ ?_ rfl
  · decide +kernel
  · decide +kernel
  · exact calls_of_succeeded (by decide +kernel)

end WalletToolbox.Permissions.Requests
