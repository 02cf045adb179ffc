import WalletToolbox.Laws.Provider
import WalletToolbox.Storage.WalletProvider

/-! # The rows of users

What the calls that touch the `users` table do to the row of an identity key.
A user that is not there yet is added without a choice of the active store and with a time before
every sync, so it counts as a row with these values already. -/

namespace WalletToolbox.Storage

open WalletToolbox.Lib
open WalletToolbox.Lib.Prog hiding pure exec

variable {s : Store} {E : Store → Prop} {k : String}

/-- The row of an identity key. -/
def Tables.userOf (d : Tables) (identityKey : String) : Option User :=
  d.users.first (·.identityKey == identityKey)

/-- The user's choice of the active store and when it was made. -/
structure Choice where
  activeStorage : String
  updatedAt : Nat
deriving DecidableEq

def Tables.choiceOf (d : Tables) (identityKey : String) : Choice :=
  match d.userOf identityKey with
  | some u => ⟨u.activeStorage, u.updatedAt⟩
  | none => ⟨"", 31536000000⟩

/-- The time of a user that no sync has reached. -/
theorem toSeconds_unsynced : toSeconds 31536000000 = 31536000000 := by
  simp [toSeconds]

/-- The row that `find_or_insert_user` adds. -/
def newUser (identityKey : String) (now : Nat) : User :=
  { createdAt := now, updatedAt := 31536000000, identityKey, activeStorage := "" }

theorem userOf_some {u : User} (h : s.userOf k = some u) : u ∈ s.users ∧ u.identityKey = k := by
  obtain ⟨hmem, hkey⟩ := Table.first_some h
  exact ⟨hmem, by simpa using hkey⟩

theorem userOf_eq {u : User} (h : u ∈ s.users) : s.userOf u.identityKey = some u := by
  cases hfirst : s.userOf u.identityKey with
  | none =>
    have := Table.first_none.mp hfirst u h
    simp at this
  | some v =>
    obtain ⟨hv, hkey⟩ := userOf_some hfirst
    rw [s.unique.users.eq hv h hkey]

theorem choiceOf_congr {d d' : Tables} (h : d'.users = d.users) (k : String) :
    d'.choiceOf k = d.choiceOf k := by
  simp only [Tables.choiceOf, Tables.userOf, h]

theorem choiceOf_of_userOf {d : Tables} {u : User} (h : d.userOf k = some u) :
    d.choiceOf k = ⟨u.activeStorage, u.updatedAt⟩ := by
  rw [Tables.choiceOf, h]

/-! ## Finding and adding a user -/

theorem find_identityKey (s : Store) (k : String) :
    verifyOneOrNone (s.users.find (·.identityKey == k)) = .ok (s.userOf k) := by
  have hhead : s.userOf k = (s.users.find (·.identityKey == k)).head? := Table.first_eq_head
  rw [hhead]
  match hrows : s.users.find (·.identityKey == k) with
  | [] => rfl
  | [_] => rfl
  | a :: b :: rest =>
    have ha : a ∈ s.users.find (·.identityKey == k) := by rw [hrows]; simp
    have hb : b ∈ s.users.find (·.identityKey == k) := by rw [hrows]; simp
    obtain ⟨ha, hka⟩ := Table.mem_find.mp ha
    obtain ⟨hb, hkb⟩ := Table.mem_find.mp hb
    have hab : a = b := s.unique.users.eq ha hb (by simpa using (eq_of_beq hka).trans (eq_of_beq hkb).symm)
    have hnodup := Table.nodup_key_find s.users (·.identityKey == k)
    rw [hrows, hab] at hnodup
    simp at hnodup

theorem wp_findUserByIdentityKey {Q : Option User → Store → Prop} :
    wp Stmt.exec (findUserByIdentityKey k) Q E s ↔ Q (s.userOf k) s := by
  unfold findUserByIdentityKey
  rw [wp_bind, wp_ask, find_identityKey]
  exact Iff.rfl

/-- A new user breaks no constraint. -/
theorem exec_insertUser {row : User} (hnew : s.userOf row.identityKey = none) :
    ∃ s' : Store, (Stmt.insertUser row).exec s = .ok (s.users.lastId + 1, s') ∧
      s'.toTables = ((Stmt.insertUser row).apply s.toTables).2 := by
  have hf : ((Stmt.insertUser row).apply s.toTables).2.ForeignKeys :=
    { s.foreign with
      basketUser := s.foreign.basketUser.insert_target fun _ => rfl
      transactionUser := s.foreign.transactionUser.insert_target fun _ => rfl
      outputUser := s.foreign.outputUser.insert_target fun _ => rfl
      labelUser := s.foreign.labelUser.insert_target fun _ => rfl
      tagUser := s.foreign.tagUser.insert_target fun _ => rfl
      certificateUser := s.foreign.certificateUser.insert_target fun _ => rfl
      fieldUser := s.foreign.fieldUser.insert_target fun _ => rfl
      commissionUser := s.foreign.commissionUser.insert_target fun _ => rfl
      syncStateUser := s.foreign.syncStateUser.insert_target fun _ => rfl }
  have hu : ((Stmt.insertUser row).apply s.toTables).2.UniqueKeys := by
    refine { s.unique with users := s.unique.users.insert (fun _ => rfl) ?_ }
    intro r hr
    have := Table.first_none.mp hnew r hr
    simpa [User.stored] using this
  exact ⟨_, exec_of_constraints hf hu, rfl⟩

theorem wp_findOrInsertUser {Q : User × Bool → Store → Prop}
    (hfound : ∀ u, s.userOf k = some u → Q (u, false) s)
    (hnew : s.userOf k = none → ∀ s' : Store,
      s'.toTables = ((Stmt.insertUser (newUser k s.now)).apply s.toTables).2 →
      Q ({ newUser k s.now with userId := s.users.lastId + 1 }, true) s') :
    wp Stmt.exec (findOrInsertUser k) Q E s := by
  unfold findOrInsertUser
  rw [wp_bind, wp_findUserByIdentityKey]
  cases hu : s.userOf k with
  | some u => exact hfound u hu
  | none =>
    rw [wp_bind, wp_utcNow, wp_bind]
    obtain ⟨s', hexec, hs'⟩ := @exec_insertUser s (newUser k s.now) hu
    refine wp_exec (fun n s₁ h₁ => ?_) (fun e he => ?_)
    · obtain ⟨rfl, rfl⟩ : s.users.lastId + 1 = n ∧ s' = s₁ := by
        have h₁' := hexec.symm.trans h₁
        simpa only [Except.ok.injEq, Prod.mk.injEq] using h₁'
      exact hnew hu s' hs'
    · have hfalse := hexec.symm.trans he
      cases hfalse

/-- The choice after a user was added. -/
theorem userOf_insertUser {d : Tables} {row : User} (hnew : d.userOf row.identityKey = none)
    (k : String) :
    ((Stmt.insertUser row).apply d).2.userOf k =
      if row.identityKey = k then some (row.stored (d.users.lastId + 1)) else d.userOf k := by
  have hfirst : ((Stmt.insertUser row).apply d).2.userOf k =
      (d.userOf k).or (if row.identityKey = k then some (row.stored (d.users.lastId + 1)) else none) := by
    simp only [Tables.userOf, Stmt.apply, Table.first, Table.insert, List.find?_append,
      List.find?_cons, List.find?_nil, User.stored]
    cases hk : row.identityKey == k with
    | true => rw [if_pos (by simpa using hk)]
    | false => rw [if_neg (by simpa using hk)]
  rw [hfirst]
  by_cases hk : row.identityKey = k
  · rw [if_pos hk, ← hk, hnew, Option.none_or, if_pos rfl]
  · rw [if_neg hk, if_neg hk, Option.or_none]

/-- Finding or adding a user changes nobody's choice. -/
theorem wp_findOrInsertUser_choice {Q : User × Bool → Store → Prop}
    (h : ∀ r : User × Bool, ∀ s' : Store, ∀ u, s'.userOf k = some u → u.userId = r.1.userId →
      (⟨r.1.activeStorage, r.1.updatedAt⟩ : Choice) = s.choiceOf k →
      (∀ k', s'.choiceOf k' = s.choiceOf k') → (∀ v, s.userOf k = some v → s' = s ∧ r.1 = v) →
      s'.syncStates = s.syncStates → s'.now = s.now →
      (s.userOf k = none → u.userId = s.users.lastId + 1) → Q r s') :
    wp Stmt.exec (findOrInsertUser k) Q E s := by
  apply wp_findOrInsertUser
  · intro u hu
    refine h (u, false) s u hu rfl (choiceOf_of_userOf hu).symm (fun _ => rfl) ?_ rfl rfl ?_
    · intro v hv
      rw [hu] at hv
      exact ⟨rfl, Option.some.inj hv⟩
    · intro hnone
      rw [hu] at hnone
      cases hnone
  · intro hnone s' hs'
    have huser : ∀ k', s'.userOf k' =
        if k = k' then some ((newUser k s.now).stored (s.users.lastId + 1)) else s.userOf k' := by
      intro k'
      rw [hs']
      exact userOf_insertUser hnone k'
    have hstored : (⟨((newUser k s.now).stored (s.users.lastId + 1)).activeStorage,
        ((newUser k s.now).stored (s.users.lastId + 1)).updatedAt⟩ : Choice) = s.choiceOf k := by
      simp only [Tables.choiceOf, hnone, User.stored, newUser, toSeconds_unsynced]
    refine h _ s' ((newUser k s.now).stored (s.users.lastId + 1)) ?_ rfl ?_ ?_ ?_ ?_ ?_ fun _ => rfl
    · rw [huser, if_pos rfl]
    · rw [Tables.choiceOf, hnone]
      rfl
    · intro k'
      by_cases hk : k = k'
      · subst hk
        have hs : s'.userOf k = some ((newUser k s.now).stored (s.users.lastId + 1)) := by
          rw [huser, if_pos rfl]
        rw [choiceOf_of_userOf hs]
        exact hstored
      · simp only [Tables.choiceOf, huser, if_neg hk]
    · intro v hv
      rw [hnone] at hv
      cases hv
    · rw [hs']
      rfl
    · rw [hs']
      rfl

/-! ## Writing the choice -/

theorem userOf_updateUser {d : Tables} {id : Nat} {p : UserPartial} (k : String) :
    ((Stmt.updateUser id p).apply d).2.userOf k =
      (d.userOf k).map fun u => if u.userId == id then p.apply d.now u else u := by
  unfold Tables.userOf
  simp only [Stmt.apply]
  exact Table.first_update (p := fun u : User => u.userId == id)
    (q := fun u : User => u.identityKey == k) fun _ => rfl

/-- Writing the row of one user changes nobody else's choice. -/
theorem choiceOf_updateUser {s : Store} {u : User} (hu : s.userOf k = some u) {p : UserPartial}
    (k' : String) :
    ((Stmt.updateUser u.userId p).apply s.toTables).2.choiceOf k' =
      if k' = k then ⟨p.activeStorage.getD u.activeStorage, p.updatedAt.getD (toSeconds s.now)⟩
      else s.choiceOf k' := by
  by_cases hk : k' = k
  · subst hk
    have hnew : ((Stmt.updateUser u.userId p).apply s.toTables).2.userOf k' =
        some (p.apply s.now u) := by
      rw [userOf_updateUser, hu]
      simp
    rw [choiceOf_of_userOf hnew, if_pos rfl]
    rfl
  · rw [if_neg hk]
    unfold Tables.choiceOf
    rw [userOf_updateUser]
    cases hu' : s.userOf k' with
    | none => rfl
    | some v =>
      have hne : v.userId ≠ u.userId := by
        intro heq
        have hvu : v = u := Table.eq_of_key_eq (userOf_some hu').1 (userOf_some hu).1 heq
        exact hk ((userOf_some hu').2.symm.trans (by rw [hvu, (userOf_some hu).2]))
      simp [hne]

/-- The id of the user with an identity key, or the one that the next new user gets. -/
def Tables.userIdOf (d : Tables) (identityKey : String) : Nat :=
  ((d.userOf identityKey).map (·.userId)).getD (d.users.lastId + 1)

/-- An id that comes with the identity key is that of the user. -/
def AuthId.Owns (auth : AuthId) (userId : Nat) : Prop :=
  ∀ claimed ∈ auth.userId, claimed = 0 ∨ claimed = userId

/-- Resolving a user changes nobody's choice; the row is there afterwards. -/
theorem wp_resolveUserScope {auth : AuthId} {Q : Nat → Store → Prop}
    (h : ∀ u, ∀ s' : Store, s'.userOf auth.identityKey = some u → auth.Owns u.userId →
      (∀ k', s'.choiceOf k' = s.choiceOf k') →
      (∀ v, s.userOf auth.identityKey = some v → s' = s ∧ u = v) →
      s'.syncStates = s.syncStates → s'.now = s.now → u.userId = s.userIdOf auth.identityKey →
      Q u.userId s')
    (hE : ∀ s' : Store, ¬auth.Owns (s.userIdOf auth.identityKey) →
      (∀ k', s'.choiceOf k' = s.choiceOf k') → E s') :
    wp Stmt.exec (resolveUserScope auth) Q E s := by
  unfold resolveUserScope
  rw [wp_bind]
  apply wp_findOrInsertUser_choice
  rintro ⟨user, isNew⟩ s' u hu hid _ hchoice hsame hsync hnow hfresh
  have hid : u.userId = user.userId := hid
  have howner : u.userId = s.userIdOf auth.identityKey := by
    unfold Tables.userIdOf
    cases hv : s.userOf auth.identityKey with
    | none => exact hfresh hv
    | some v =>
      have hsame : user = v := (hsame v hv).2
      rw [hid, hsame, Option.map_some, Option.getD_some]
  have hQ : auth.Owns user.userId → Q user.userId s' := by
    rw [← hid]
    intro howns
    refine h u s' hu howns hchoice ?_ hsync hnow howner
    intro v hv
    obtain ⟨rfl, _⟩ := hsame v hv
    rw [hu] at hv
    exact ⟨rfl, Option.some.inj hv⟩
  cases hclaim : auth.userId with
  | none => exact hQ (by simp [AuthId.Owns, hclaim])
  | some claimed =>
    have howns : auth.Owns user.userId ↔ ¬(claimed != 0 && claimed != user.userId) = true := by
      simp [AuthId.Owns, hclaim, or_iff_not_imp_left]
    by_cases hforeign : (claimed != 0 && claimed != user.userId) = true
    · simp only [hforeign, if_true]
      exact hE s' (by rw [← howner, hid, howns, not_not]; exact hforeign) hchoice
    · simp only [hforeign, Bool.false_eq_true, if_false]
      exact hQ (howns.mpr hforeign)

/-- The choice is written with the time of the engine's clock. -/
theorem wp_setActive {auth : AuthId} {newActive : String} {Q : Nat → Store → Prop}
    (h : ∀ n, ∀ s' : Store,
      (∀ k', s'.choiceOf k' =
        if k' = auth.identityKey then ⟨newActive, toSeconds s.now⟩ else s.choiceOf k') →
      s'.syncStates = s.syncStates → Q n s')
    (hE : ∀ s' : Store, (∀ k', s'.choiceOf k' = s.choiceOf k') → E s') :
    wp Stmt.exec (setActive auth newActive) Q E s := by
  unfold setActive
  rw [wp_bind]
  refine wp_resolveUserScope (fun u s₁ hu _ hchoice _ hsync hnow _ => ?_) fun s' _ => hE s'
  refine wp_exec (fun n s' hexec => ?_) (fun _ _ => hE s₁ hchoice)
  have hs' := (exec_eq hexec).2
  refine h n s' (fun k' => ?_) ?_
  · rw [hs', choiceOf_updateUser hu, hchoice, hnow]
    rfl
  · rw [hs']
    exact hsync

end WalletToolbox.Storage
