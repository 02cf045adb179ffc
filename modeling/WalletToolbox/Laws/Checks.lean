import WalletToolbox.Permissions.Manager

/-! # Rules for checks

What a check keeps, and when it passes. -/

namespace WalletToolbox.Permissions

variable {kit : Kit} {mgr : Manager} {a : Answers} {originator : String} {s s' : State} {q : Query}
  {type : PermissionType}

/-! ## Checks that keep an invariant -/

/-- The check keeps an invariant, and passes only under a condition. -/
def Check.Keeps (I : State → Prop) (A : Prop) (p : Check) : Prop :=
  ∀ s r s', I s → p s = some (r, s') → I s' ∧ (r = .ok () → A)

namespace Check.Keeps

variable {I : State → Prop} {A B : Prop} {p p' : Check}

theorem weaken (h : p.Keeps I A) (hAB : A → B) : p.Keeps I B := by
  intro s r s' hI hp
  obtain ⟨hI', hA⟩ := h s r s' hI hp
  exact ⟨hI', fun hr => hAB (hA hr)⟩

theorem pass : Check.pass.Keeps I True := by
  intro s r s' hI hp
  cases hp
  exact ⟨hI, fun _ => trivial⟩

theorem refuse (e : SdkError) : (Check.refuse e).Keeps I A := by
  intro s r s' hI hp
  cases hp
  exact ⟨hI, fun h => nomatch h⟩

theorem andThen (hp : p.Keeps I A) (hq : A → p'.Keeps I B) : (p.andThen p').Keeps I B := by
  intro s r s' hI h
  unfold Check.andThen at h
  split at h
  next s₁ hs₁ =>
    obtain ⟨hI₁, hA⟩ := hp s _ s₁ hI hs₁
    exact hq (hA rfl) s₁ r s' hI₁ h
  next hfailed =>
    obtain ⟨hI', -⟩ := hp s r s' hI h
    refine ⟨hI', fun hr => ?_⟩
    subst hr
    exact (hfailed s' h).elim

/-- The checks of a list: when all of them pass, the condition of each one holds. -/
theorem all {checks : List Check} (h : ∀ p ∈ checks, p.Keeps I True) :
    (Check.all checks).Keeps I (∀ p ∈ checks, ∀ A, p.Keeps I A → A) := by
  induction checks with
  | nil => exact pass.weaken fun _ p hmem => (List.not_mem_nil hmem).elim
  | cons p rest ih =>
    have hp : p.Keeps I (∀ A, p.Keeps I A → A) := by
      intro s r s' hI hpass
      refine ⟨(h p List.mem_cons_self s r s' hI hpass).1, fun hr A hA => ?_⟩
      exact (hA s r s' hI hpass).2 hr
    have hrest := ih fun p hmem => h p (List.mem_cons_of_mem _ hmem)
    exact hp.andThen fun hfirst => hrest.weaken fun hothers =>
      List.forall_mem_cons.mpr ⟨hfirst, hothers⟩

theorem ite {c : Prop} [Decidable c] (hp : c → p.Keeps I A) (hp' : ¬c → p'.Keeps I A) :
    (if c then p else p').Keeps I A := by
  split
  · exact hp ‹_›
  · exact hp' ‹_›

end Check.Keeps

/-! ## Success -/

/-- The check lets the application through. -/
def Check.Succeeds (p : Check) (s : State) : Prop := ∃ s', p s = some (.ok (), s')

theorem Check.succeeds_iff {p : Check} : p.Succeeds s ↔ (p s).any (fun r => r.1.isOk) = true := by
  constructor
  · rintro ⟨s', hp⟩
    rw [hp]
    rfl
  · intro h
    obtain ⟨⟨r, s'⟩, hp, hr⟩ := (Option.any_eq_true _ _).mp h
    cases r with
    | ok => exact ⟨s', hp⟩
    | error e => cases hr

instance (p : Check) (s : State) : Decidable (p.Succeeds s) := decidable_of_iff _ Check.succeeds_iff.symm

/-! ## Queries -/

/-- A query that is not about spending, under a key of its type. -/
structure Query.Guarded (q : Query) : Prop where
  type : q.permissionType ≠ .spendingAuthorization
  key : ∃ originator details, q.cacheKey = buildCacheKey q.permissionType originator details
  request : q.request.permissionType = q.permissionType

/-- The first character of a key tells the type. -/
theorem buildCacheKey_spending {o d o' d' : String} (htype : type ≠ .spendingAuthorization) :
    buildCacheKey type o d ≠ buildCacheKey .spendingAuthorization o' d' := by
  intro h
  have hheads := congrArg (fun key : String => key.toList.head?) h
  cases type <;> simp [buildCacheKey, PermissionType.debug] at hheads htype

/-- A decision that leaves nothing to the application. -/
def Decision.Guarded : Decision → Prop
  | .pass => False
  | .refuse _ => True
  | .resolve query => query.Guarded

/-! ## Spending -/

/-- A spending check that the user does not grant leaves at most a recent grant. -/
theorem ensureSpendingAuthorization_state {amount : Nat} {r : Except SdkError Unit}
    (hnever : a.Denies (spendingRequest (normalizeOriginator kit.lowercase originator) amount))
    (h : ensureSpendingAuthorization kit mgr a originator amount s = some (r, s')) :
    s' = s ∨ s' = { s with
      cache := s.cache.recordRecentGrant a.now
        (spendingKey (normalizeOriginator kit.lowercase originator) amount) } := by
  obtain ⟨reason, hdeny⟩ := hnever
  simp only [ensureSpendingAuthorization, hdeny] at h
  split at h
  · exact .inl (Prod.mk.inj (Option.some.inj h)).2.symm
  split at h
  · exact .inl (Prod.mk.inj (Option.some.inj h)).2.symm
  split at h
  · exact .inl (Prod.mk.inj (Option.some.inj h)).2.symm
  split at h
  · exact .inl (Prod.mk.inj (Option.some.inj h)).2.symm
  generalize (spendingTokens _ _ _ _).any _ = covered at h
  cases covered with
  | true => exact .inr (Prod.mk.inj (Option.some.inj h)).2.symm
  | false => exact .inl (Prod.mk.inj (Option.some.inj h)).2.symm

/-- Without a recent grant or a word of the user, a token covers the amount on top of what the month's
account shows. -/
theorem ensureSpendingAuthorization_covered {amount : Nat}
    (hnotAdmin : mgr.isAdmin kit (normalizeOriginator kit.lowercase originator) = false)
    (hrequired : mgr.config.requireSpendingAuthorization = true)
    (hdenies : a.Denies (spendingRequest (normalizeOriginator kit.lowercase originator) amount))
    (hrecent : s.cache.isRecentGrant a.now
      (spendingKey (normalizeOriginator kit.lowercase originator) amount) = false)
    (hlisted : a.listActions = none)
    (h : ensureSpendingAuthorization kit mgr a originator amount s = some (.ok (), s')) :
    ∃ token ∈ spendingTokens kit a.now (normalizeOriginator kit.lowercase originator) s.inner,
      token.covers (querySpentSince kit a.month originator s.inner) amount = true := by
  obtain ⟨reason, hdeny⟩ := hdenies
  simp only [ensureSpendingAuthorization, hdeny, hnotAdmin, hrequired, hrecent, hlisted,
    Bool.false_eq_true, if_false, Bool.not_true, Option.isSome_none] at h
  split at h
  · cases h
  · rw [← List.any_eq_true]
    generalize (spendingTokens _ _ _ _).any _ = covered at h
    cases covered with
    | true => rfl
    | false => cases h

end WalletToolbox.Permissions
