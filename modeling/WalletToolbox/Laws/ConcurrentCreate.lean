import WalletToolbox.Laws.CreateAction
import WalletToolbox.Lib.Pool

/-! # Concurrent createAction calls

Any number of calls take turns on one store, each reading the change basket before its database
transaction begins.
The calls that return hold what they report, no two of them hold the same row, and a call that
fails holds nothing. -/

namespace WalletToolbox.Storage

open WalletToolbox.Lib
open WalletToolbox.Lib.Prog hiding pure exec

variable {sdk : Sdk} {s₀ s s' : Store}

/-- The arguments of a call. -/
structure CreateCall where
  entropy : Entropy
  auth : String
  args : StorageCreateActionArgs

def CreateCall.prog (sdk : Sdk) (call : CreateCall) : StorageProg StorageCreateActionResult :=
  createAction sdk call.entropy call.auth call.args

/-- The calls before their first turns. -/
def concurrently (sdk : Sdk) (calls : List CreateCall) (s : Store) :
    Pool Store Stmt WalletError StorageCreateActionResult :=
  ⟨calls.map (·.prog sdk), s⟩

/-- What the transaction of the call with the given number does. -/
def CreatedAction (calls : List CreateCall) (i : Nat) (s : Store) (r : StorageCreateActionResult)
    (s' : Store) : Prop :=
  ∃ call userId id, calls[i]? = some call ∧ r.reference = call.entropy.reference ∧
    Reports s userId id call.entropy.reference r.inputs s'

theorem commits_createAction {calls : List CreateCall} {i : Nat} {call : CreateCall}
    (h : calls[i]? = some call) :
    (call.prog sdk).Commits Stmt.exec SameCore (CreatedAction calls i) := by
  have hbind : ∀ {β : Type} {p : StorageProg β} {f : β → StorageProg StorageCreateActionResult},
      p.Emits Stmt.OffCore → (∀ b, (f b).Commits Stmt.exec SameCore (CreatedAction calls i)) →
        (p >>= f).Commits Stmt.exec SameCore (CreatedAction calls i) :=
    fun hp hf => Commits.bind SameCore.refl (fun _ _ _ => SameCore.trans)
      (fun _ _ _ _ hw hexec => hw.sameCore hexec) hp hf
  have huser : (findOrInsertUser call.auth).Emits Stmt.OffCore :=
    emits_findOrInsertUser call.auth fun u => by simp [Stmt.OffCore, Stmt.target]
  refine hbind huser fun user => hbind (Emits.ask _) fun now => hbind (Emits.ask _) fun rows =>
    hbind (Emits.ofExcept _) fun basket => commits_atomically fun s r s' hrun => ?_
  have hwp : wp Stmt.exec (doCreateAction sdk call.entropy user.1.userId call.args basket now)
      (fun r s' => r.reference = call.entropy.reference ∧
        ∃ id, Reports s user.1.userId id call.entropy.reference r.inputs s') (fun _ => True) s :=
    wp_doCreateAction
  unfold Prog.wp at hwp
  rw [hrun] at hwp
  obtain ⟨href, id, hreports⟩ := hwp
  exact ⟨call, user.1.userId, id, h, href, hreports⟩

/-! ## What the results hold -/

/-- A row for the outpoint, claimed by the transaction. -/
def Holds (s : Store) (userId id : Nat) (x : StorageOutPoint) : Prop :=
  ∃ o ∈ s.outputs, o.userId = userId ∧ o.txid.getD "" = x.txid ∧ o.vout = x.vout ∧
    o.spendable = false ∧ o.spentBy = some id

/-- The user has no row for the outpoint. -/
def Unknown (s : Store) (userId : Nat) (x : StorageOutPoint) : Prop :=
  ∀ o ∈ s.outputs, ¬(o.userId = userId ∧ o.txid = some x.txid ∧ o.vout = x.vout)

/-- The results so far and the store: each result has a transaction of its own that holds its inputs,
and every claim is one of these or is older than the calls. -/
structure Held (s₀ : Store) (f : Nat → Option StorageCreateActionResult) (userIds ids : Nat → Nat)
    (s : Store) : Prop where
  kept : ∀ o ∈ s₀.outputs, ∃ o' ∈ s.outputs, o'.userId = o.userId ∧ o'.txid = o.txid ∧ o'.vout = o.vout
  action : ∀ i r, f i = some r → ∃ t ∈ s.transactions,
    t.transactionId = ids i ∧ t.userId = userIds i ∧ t.reference = r.reference
  inputs : ∀ i r, f i = some r → ∀ x ∈ r.inputs,
    Holds s (userIds i) (ids i) x.outpoint ∨ Unknown s₀ (userIds i) x.outpoint
  distinct : ∀ i j r r', f i = some r → f j = some r' → ids i = ids j → i = j
  claims : ∀ o ∈ s.outputs, ∀ t, o.spentBy = some t →
    (∃ o₀ ∈ s₀.outputs, o₀.outputId = o.outputId ∧ o₀.spentBy = some t) ∨
      ∃ i r, f i = some r ∧ ids i = t

section Held

variable {f : Nat → Option StorageCreateActionResult} {userIds ids : Nat → Nat}

theorem Held.sameCore (h : Held s₀ f userIds ids s) (hcore : SameCore s s') :
    Held s₀ f userIds ids s' := by
  obtain ⟨kept, action, inputs, distinct, claims⟩ := h
  unfold Holds at inputs
  rw [← hcore.outputs] at kept inputs claims
  rw [← hcore.transactions] at action
  exact ⟨kept, action, inputs, distinct, claims⟩

/-- A row that is claimed is not free, so a later transaction leaves it alone. -/
theorem Holds.created {userId id userId' id' : Nat} {reference : String} {x : StorageOutPoint}
    (h : Holds s userId id x) (hcreated : Created s s' userId' id' reference) :
    Holds s' userId id x := by
  obtain ⟨o, ho, huser, htxid, hvout, hspendable, hclaim⟩ := h
  rcases hcreated.keptOutputs o ho with hkept | ⟨hfree, -⟩
  · exact ⟨o, hkept, huser, htxid, hvout, hspendable, hclaim⟩
  · rw [hfree.spentBy] at hclaim
    cases hclaim

/-- The transaction of a call adds its result. -/
theorem Held.commit (h : Held s₀ f userIds ids s) {i userId id : Nat} {reference : String}
    {r : StorageCreateActionResult} (hi : f i = none) (href : r.reference = reference)
    (hreports : Reports s userId id reference r.inputs s') :
    Held s₀ (Function.update f i (some r)) (Function.update userIds i userId)
      (Function.update ids i id) s' := by
  have hcreated := hreports.created
  have hold : ∀ {j r'}, j ≠ i → Function.update f i (some r) j = some r' → f j = some r' :=
    fun hj hr => by rwa [Function.update_of_ne hj] at hr
  -- The new id is that of no transaction that was there.
  have hfresh : ∀ {j r'}, f j = some r' → ids j ≠ id := by
    intro j r' hr
    obtain ⟨t, ht, hid, -⟩ := h.action j r' hr
    exact hid ▸ hcreated.fresh t ht
  constructor
  · intro o ho
    obtain ⟨o', ho', hrow⟩ := h.kept o ho
    rcases hcreated.keptOutputs o' ho' with hkept | ⟨-, now, hclaimed⟩
    · exact ⟨o', hkept, hrow⟩
    · exact ⟨_, hclaimed, hrow⟩
  · intro j r' hr
    by_cases hj : j = i
    · subst hj
      obtain ⟨t, ht, hnew⟩ := hcreated.added
      rw [Function.update_self] at hr
      obtain rfl := Option.some.inj hr
      rw [Function.update_self, Function.update_self]
      exact ⟨t, ht, hnew.transactionId, hnew.userId, hnew.reference.trans href.symm⟩
    · obtain ⟨t, ht, hrow⟩ := h.action j r' (hold hj hr)
      rw [Function.update_of_ne hj, Function.update_of_ne hj]
      exact ⟨t, hcreated.keptTransactions t ht, hrow⟩
  · intro j r' hr x hx
    by_cases hj : j = i
    · subst hj
      rw [Function.update_self] at hr ⊢
      rw [Function.update_self]
      obtain rfl := Option.some.inj hr
      rcases hreports.reported x hx with ⟨o, ⟨-, hfree, now, hclaimed⟩, htxid, hvout⟩ | hnone
      · exact .inl ⟨_, hclaimed, hfree.userId, htxid, hvout, rfl, rfl⟩
      · refine .inr fun o ho hrow => ?_
        obtain ⟨o', ho', huser, htxid, hvout⟩ := h.kept o ho
        exact hnone o' ho' ⟨huser.trans hrow.1, htxid.trans hrow.2.1, hvout.trans hrow.2.2⟩
    · rw [Function.update_of_ne hj, Function.update_of_ne hj]
      exact (h.inputs j r' (hold hj hr) x hx).imp_left fun hholds => hholds.created hcreated
  · intro j k r₁ r₂ hr₁ hr₂ heq
    by_cases hj : j = i
    · by_cases hk : k = i
      · exact hj.trans hk.symm
      · rw [hj, Function.update_self, Function.update_of_ne hk] at heq
        exact absurd heq.symm (hfresh (hold hk hr₂))
    · by_cases hk : k = i
      · rw [hk, Function.update_self, Function.update_of_ne hj] at heq
        exact absurd heq (hfresh (hold hj hr₁))
      · rw [Function.update_of_ne hj, Function.update_of_ne hk] at heq
        exact h.distinct j k r₁ r₂ (hold hj hr₁) (hold hk hr₂) heq
  · intro o ho t hclaim
    have hother : o ∈ s.outputs → (∃ o₀ ∈ s₀.outputs, o₀.outputId = o.outputId ∧ o₀.spentBy = some t) ∨
        ∃ j r', Function.update f i (some r) j = some r' ∧ Function.update ids i id j = t := by
      intro ho
      rcases h.claims o ho t hclaim with holder | ⟨j, r', hr, hid⟩
      · exact .inl holder
      · have hj : j ≠ i := fun hj => by rw [hj, hi] at hr; cases hr
        exact .inr ⟨j, r', by rw [Function.update_of_ne hj, hr], by rw [Function.update_of_ne hj, hid]⟩
    rcases hcreated.outputs o ho with hold | ⟨o₁, -, -, now, rfl⟩ | hnew
    · exact hother hold
    · refine .inr ⟨i, r, Function.update_self .., ?_⟩
      rw [Function.update_self]
      exact Option.some.inj hclaim
    · rw [hnew.spentBy] at hclaim
      cases hclaim

end Held

/-- Whatever the order of the turns, the results hold their inputs and no claim is anybody else's. -/
theorem runs_held (calls : List CreateCall) (s₀ : Store) (schedule : List Nat) :
    ∃ userIds ids, Held s₀ ((concurrently sdk calls s₀).runs Stmt.exec schedule).result userIds ids
      ((concurrently sdk calls s₀).runs Stmt.exec schedule).store := by
  refine Pool.runs_inv (J := fun f s => ∃ userIds ids, Held s₀ f userIds ids s)
    (R := CreatedAction calls) SameCore.refl ?_ ?_ ?_ ?_ schedule
  · rintro f s s' ⟨userIds, ids, h⟩ hcore
    exact ⟨userIds, ids, h.sameCore hcore⟩
  · rintro f i s r s' ⟨userIds, ids, h⟩ hi ⟨call, userId, id, -, href, hreports⟩
    exact ⟨_, _, h.commit hi href hreports⟩
  · intro i p hp
    rw [List.getElem?_map, Option.map_eq_some_iff] at hp
    obtain ⟨call, hcall, rfl⟩ := hp
    exact commits_createAction hcall
  · exact ⟨fun _ => 0, fun _ => 0, fun o ho => ⟨o, ho, rfl, rfl, rfl⟩, nofun, nofun, nofun,
      fun o ho t ht => .inl ⟨o, ho, rfl, ht⟩⟩

/-- In every interleaving of any number of calls, each call that has returned has a transaction that
holds every row reported as an input, the transactions of different calls are different, and every
row claimed since the beginning is held by a call that has returned. -/
theorem concurrent_claims_exclusive (calls : List CreateCall) (s₀ : Store) (schedule : List Nat) :
    let c := (concurrently sdk calls s₀).runs Stmt.exec schedule
    ∃ userIds ids : Nat → Nat,
      (∀ i r, c.result i = some r →
        (∃ t ∈ c.store.transactions,
          t.transactionId = ids i ∧ t.userId = userIds i ∧ t.reference = r.reference) ∧
        ∀ x ∈ r.inputs,
          Holds c.store (userIds i) (ids i) x.outpoint ∨ Unknown s₀ (userIds i) x.outpoint) ∧
      (∀ i j r r', c.result i = some r → c.result j = some r' → ids i = ids j → i = j) ∧
      ∀ o ∈ c.store.outputs, ∀ t, o.spentBy = some t →
        (∃ o₀ ∈ s₀.outputs, o₀.outputId = o.outputId ∧ o₀.spentBy = some t) ∨
          ∃ i r, c.result i = some r ∧ ids i = t := by
  obtain ⟨userIds, ids, h⟩ := runs_held calls s₀ schedule
  exact ⟨userIds, ids, fun i r hr => ⟨h.action i r hr, h.inputs i r hr⟩, h.distinct, h.claims⟩

end WalletToolbox.Storage
