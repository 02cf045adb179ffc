import WalletToolbox.Laws.Users
import WalletToolbox.Manager

/-! # One turn of a sync round

A turn opens the sync state of the pair, asks the reader for a chunk and merges it.
The merger of a kind writes the table of that kind only, so the user's row and the sync state
change in two places: where the user record is merged and where the state is written at the end. -/

namespace WalletToolbox.Storage

open WalletToolbox.Lib
open WalletToolbox.Lib.Prog hiding pure exec

variable {s : Store} {E : Store → Prop} {k origin : String}

/-! ## The tables of the kinds -/

/-- The table that the merger of a kind writes. -/
def Entity.target : Entity → TableName
  | .provenTx => .provenTxs
  | .outputBasket => .outputBaskets
  | .outputTag => .outputTags
  | .txLabel => .txLabels
  | .transaction => .transactions
  | .output => .outputs
  | .txLabelMap => .txLabelMaps
  | .outputTagMap => .outputTagMaps
  | .certificate => .certificates
  | .certificateField => .certificateFields
  | .commission => .commissions
  | .provenTxReq => .provenTxReqs

theorem Entity.target_ne_users (e : Entity) : e.target ≠ .users := by
  cases e <;> decide

theorem Entity.target_ne_syncStates (e : Entity) : e.target ≠ .syncStates := by
  cases e <;> decide

theorem exec_syncStates {w : Stmt} {s s' : Store} {n : Nat} (h : w.exec s = .ok (n, s'))
    (hw : w.target ≠ .syncStates) : s'.syncStates = s.syncStates := by
  rw [(exec_eq h).2]
  cases w <;> first | rfl | exact absurd rfl hw

/-- A statement on another table leaves the rows of a kind. -/
theorem exec_table {w : Stmt} {s s' : Store} {n : Nat} (h : w.exec s = .ok (n, s')) {e : Entity}
    (hw : w.target ≠ e.target) : s'.table e = s.table e := by
  rw [(exec_eq h).2]
  cases e <;> cases w <;> first | rfl | exact absurd rfl hw

/-- A merger writes the table of its kind. -/
theorem mergeOf_target {userId : Nat} {m : SyncMap} {e : Entity} {r : e.Row} {merge : Merge e.Row}
    (h : mergeOf userId m e r = .ok merge) :
    merge.insert.target = e.target ∧ ∀ update ∈ merge.update, ∀ l, (update l).target = e.target := by
  cases e with
  | output | certificateField | commission =>
    obtain ⟨_, _, h⟩ := except_bind_ok h
    cases h
    exact ⟨rfl, by rintro _ ⟨⟩ _; rfl⟩
  | txLabelMap | outputTagMap =>
    obtain ⟨_, _, h⟩ := except_bind_ok h
    obtain ⟨_, _, h⟩ := except_bind_ok h
    cases h
    exact ⟨rfl, by rintro _ ⟨⟩ _; rfl⟩
  | provenTx =>
    cases h
    exact ⟨rfl, nofun⟩
  | _ =>
    cases h
    exact ⟨rfl, by rintro _ ⟨⟩ _; rfl⟩

theorem emits_mergeRow (userId : Nat) (e : Entity) (st : MergeState) (r : e.Row) :
    (mergeRow userId e st r).Emits fun w => w.target = e.target := by
  unfold mergeRow
  cases hmerge : mergeOf userId (st.map.received e r) e r with
  | error _ =>
    simp only [hmerge]
    exact Emits.fail _
  | ok merge =>
    obtain ⟨hinsert, hupdate⟩ := mergeOf_target hmerge
    simp only [hmerge]
    show (mergeWith e st (st.map.received e r) merge r).Emits _
    refine Emits.bind (Emits.ask _) fun found => ?_
    cases found with
    | none =>
      exact Emits.bind (Emits.exec hinsert) fun _ => Emits.bind (Emits.ofExcept _) fun _ => Emits.pure _
    | some existing =>
      refine Emits.bind ?_ fun _ => Emits.bind (Emits.ofExcept _) fun _ => Emits.pure _
      unfold updateLocal
      cases hm : merge.update with
      | none => exact Emits.pure _
      | some update =>
        by_cases hnewer : shouldUpdate e existing r = true
        · simp only [hnewer, if_true]
          exact Emits.bind (emits_exec' (hupdate update hm existing)) fun _ => Emits.pure _
        · simp only [hnewer, Bool.false_eq_true, if_false]
          exact Emits.pure _

theorem emits_mergeEntity (userId : Nat) (chunk : SyncChunk) (st : MergeState) (e : Entity) :
    (mergeEntity userId chunk st e).Emits fun w => w.target = e.target :=
  Emits.foldlM fun st r _ => emits_mergeRow userId e st r

/-- Merging rows leaves the users and the sync states alone. -/
theorem emits_mergeEntities (userId : Nat) (chunk : SyncChunk) (st : MergeState) (es : List Entity) :
    (es.foldlM (mergeEntity userId chunk) st).Emits fun w =>
      w.target ≠ .users ∧ w.target ≠ .syncStates := by
  refine Emits.foldlM fun st e _ => (emits_mergeEntity userId chunk st e).mono fun w hw => ?_
  rw [hw]
  exact ⟨e.target_ne_users, e.target_ne_syncStates⟩

/-! ## The state of a pair -/

/-- The state that a store keeps for a user and the store it reads from. -/
def Tables.syncStateOf (d : Tables) (identityKey origin : String) : Option SyncState :=
  (d.userOf identityKey).bind fun u =>
    d.syncStates.first fun ss => ss.userId == u.userId && ss.storageIdentityKey == origin

/-- The time up to which a store has read. -/
def Tables.windowOf (d : Tables) (identityKey origin : String) : Option Nat :=
  (d.syncStateOf identityKey origin).bind (·.syncedAt)

/-- The sync map that a store keeps for a user and the store it reads from. -/
def Tables.progressOf (d : Tables) (identityKey origin : String) : Except WalletError SyncMap :=
  match d.syncStateOf identityKey origin with
  | none => .ok {}
  | some ss => ss.map "failed to parse persisted sync_map"

/-- The state of a pair can be found or added: an id that comes with the key is that of the user, there
is at most one state, and the reference number of a new one is free. -/
structure Opens (s : Store) (refNum origin : String) (auth : AuthId) : Prop where
  owns : auth.Owns (s.userIdOf auth.identityKey)
  single : ∀ u, s.userOf auth.identityKey = some u →
    (s.syncStates.find fun ss => ss.userId == u.userId && ss.storageIdentityKey == origin).length ≤ 1
  refNum : s.syncStateOf auth.identityKey origin = none → ∀ ss ∈ s.syncStates, ss.refNum ≠ refNum

theorem syncStateOf_congr {d d' : Tables} (huser : (d'.userOf k).map (·.userId) = (d.userOf k).map (·.userId))
    (hsync : d'.syncStates = d.syncStates) : d'.syncStateOf k origin = d.syncStateOf k origin := by
  unfold Tables.syncStateOf
  rw [hsync]
  cases hu : d.userOf k with
  | none =>
    rw [hu, Option.map_none, Option.map_eq_none_iff] at huser
    rw [huser]
  | some u =>
    rw [hu, Option.map_some] at huser
    obtain ⟨u', hu', hid⟩ := Option.map_eq_some_iff.mp huser
    rw [hu', Option.bind_some, Option.bind_some, hid]

/-- Finding or adding the user's row does not change the state of a pair: a new user has none. -/
theorem syncStateOf_found {u : User} {s' : Store} (hu : s'.userOf k = some u)
    (hsame : ∀ v, s.userOf k = some v → s' = s) (hsync : s'.syncStates = s.syncStates)
    (hfresh : s.userOf k = none → u.userId = s.users.lastId + 1) :
    s'.syncStateOf k origin = s.syncStateOf k origin := by
  cases hv : s.userOf k with
  | some v =>
    rw [hsame v hv]
  | none =>
    unfold Tables.syncStateOf
    rw [hv, hu, hsync, Option.bind_none, Option.bind_some, Table.first_none]
    intro ss hss
    obtain ⟨v, hvmem, hvkey⟩ := s.foreign.syncStateUser ss hss
    have hle := Table.key_le_lastId hvmem
    have hid := hfresh hv
    have hne : ss.userId ≠ u.userId := by omega
    simp [hne]

/-- What is known of a pair when its state is open: the user's row, the one state of the pair, and
what its fields were before. -/
structure PairOpen (s : Store) (auth : AuthId) (origin : String) (ss : SyncState) (s' : Store) : Prop where
  user : ∀ u, s'.userOf auth.identityKey = some u →
    auth.Owns u.userId ∧ u.userId = s.userIdOf auth.identityKey
  choice : ∀ k', s'.choiceOf k' = s.choiceOf k'
  state : s'.syncStateOf auth.identityKey origin = some ss
  only : ∀ u, s'.userOf auth.identityKey = some u →
    s'.syncStates.find (fun ss => ss.userId == u.userId && ss.storageIdentityKey == origin) = [ss]
  before : s.syncStateOf auth.identityKey origin = some ss ∨
    (s.syncStateOf auth.identityKey origin = none ∧ ss.syncMap = .blank ∧ ss.syncedAt = none)
  origin : ss.storageIdentityKey = origin

theorem PairOpen.window {auth : AuthId} {ss : SyncState} {s' : Store} (h : PairOpen s auth origin ss s') :
    ss.syncedAt = s.windowOf auth.identityKey origin := by
  unfold Tables.windowOf
  rcases h.before with hbefore | ⟨hbefore, _, hnone⟩
  · rw [hbefore, Option.bind_some]
  · rw [hbefore, Option.bind_none, hnone]

theorem PairOpen.progress {auth : AuthId} {ss : SyncState} {s' : Store} (h : PairOpen s auth origin ss s') :
    s.progressOf auth.identityKey origin = ss.map "failed to parse persisted sync_map" := by
  unfold Tables.progressOf
  rcases h.before with hbefore | ⟨hbefore, hblank, _⟩
  · rw [hbefore]
  · rw [hbefore, SyncState.map, hblank]

/-- The row that `find_or_insert_sync_state_auth` adds. -/
def newSyncState (refNum : String) (userId : Nat) (origin name : String) (now : Nat) : SyncState :=
  { createdAt := now, updatedAt := now, userId, storageIdentityKey := origin, storageName := name
    status := .unknown, init := false, refNum := refNum, syncMap := .blank, syncedAt := none }

/-- A state with a new reference number breaks no constraint. -/
theorem exec_insertSyncState {ss : SyncState} {u : User} (hu : u ∈ s.users) (huser : ss.userId = u.userId)
    (hnew : ∀ ss' ∈ s.syncStates, ss'.refNum ≠ ss.refNum) :
    ∃ a, (Stmt.insertSyncState ss).exec s = .ok a := by
  have hforeign : ((Stmt.insertSyncState ss).apply s.toTables).2.ForeignKeys := by
    refine { s.foreign with syncStateUser := fun x hx => ?_ }
    rcases List.mem_append.mp hx with hx | hx
    · exact s.foreign.syncStateUser x hx
    · rw [List.mem_singleton.mp hx]
      exact ⟨u, hu, huser.symm⟩
  have hkeys : ((Stmt.insertSyncState ss).apply s.toTables).2.UniqueKeys :=
    { s.unique with syncStates := s.unique.syncStates.insert (fun _ => rfl) hnew }
  exact ⟨_, exec_of_constraints hforeign hkeys⟩

theorem verifyOneOrNone_error {α : Type} {rows : List α} {err : WalletError}
    (h : verifyOneOrNone rows = .error err) : 1 < rows.length := by
  match rows with
  | [] => cases h
  | [_] => cases h
  | _ :: _ :: rest => simp

/-- Opening the state of a pair. The answer may differ from the row in the digits of its times. -/
theorem wp_findOrInsertSyncStateAuth {refNum name : String} {auth : AuthId}
    {Q : SyncState × Bool → Store → Prop} (hE : Opens s refNum origin auth ∨ ∀ s', E s')
    (h : ∀ r : SyncState × Bool, ∀ ss s', PairOpen s auth origin ss s' →
      r.1.syncMap = ss.syncMap → r.1.syncedAt = ss.syncedAt →
      r.1.storageIdentityKey = ss.storageIdentityKey → Q r s') :
    wp Stmt.exec (findOrInsertSyncStateAuth refNum auth origin name) Q E s := by
  unfold findOrInsertSyncStateAuth
  rw [wp_bind]
  refine wp_resolveUserScope (fun u s₁ hu howns hchoice hsame hsync _ hid => ?_)
    fun s' hclaims _ => hE.elim (fun ho => absurd ho.owns hclaims) fun h => h s'
  have huser : ∀ u', s₁.userOf auth.identityKey = some u' →
      auth.Owns u'.userId ∧ u'.userId = s.userIdOf auth.identityKey := by
    intro u' hu'
    rw [hu] at hu'
    cases hu'
    exact ⟨howns, hid⟩
  rw [wp_bind]
  unfold findSyncState
  rw [wp_bind, wp_ask]
  have hstate : s₁.syncStateOf auth.identityKey origin = s.syncStateOf auth.identityKey origin :=
    syncStateOf_found hu (fun v hv => (hsame v hv).1) hsync fun hnone => by
      rw [hid, Tables.userIdOf, hnone, Option.map_none, Option.getD_none]
  refine wp_ofExcept (fun found hfound => ?_) fun err herr => hE.elim (fun ho => ?_) fun h => h s₁
  swap
  · -- a user that was there has one state at most, a new one has none
    exfalso
    have hmany := verifyOneOrNone_error herr
    cases hv : s.userOf auth.identityKey with
    | some v =>
      obtain ⟨rfl, rfl⟩ := hsame v hv
      have := ho.single u hv
      omega
    | none =>
      have hnone : s₁.syncStateOf auth.identityKey origin = none := by
        rw [hstate, Tables.syncStateOf, hv, Option.bind_none]
      rw [Tables.syncStateOf, hu, Option.bind_some, Table.first_eq_head, List.head?_eq_none_iff] at hnone
      rw [hnone] at hmany
      simp at hmany
  have hrows := verifyOneOrNone_ok hfound
  have hfirst : s₁.syncStateOf auth.identityKey origin = found := by
    rw [Tables.syncStateOf, hu, Option.bind_some, verifyOneOrNone_first hfound]
  have hbefore : s.syncStateOf auth.identityKey origin = found := hstate.symm.trans hfirst
  cases found with
  | some ss =>
    refine h (ss, false) ss s₁ ⟨huser, hchoice, hfirst, ?_, .inl hbefore, ?_⟩ rfl rfl rfl
    · intro u' hu'
      rw [hu] at hu'
      cases hu'
      exact hrows
    · have hmem : ss ∈ s₁.syncStates.find fun ss =>
          ss.userId == u.userId && ss.storageIdentityKey == origin := by
        rw [hrows]
        exact List.mem_singleton_self ss
      have hss := (Table.mem_find.mp hmem).2
      simp only [Bool.and_eq_true, beq_iff_eq] at hss
      exact hss.2
  | none =>
    unfold utcNow
    rw [wp_bind, wp_ask]
    simp only [wp_bind]
    refine wp_exec (fun n s₂ hexec => ?_) fun err herr => hE.elim (fun ho => ?_) fun h => h s₁
    swap
    · obtain ⟨a, hok⟩ := @exec_insertSyncState s₁ (newSyncState refNum u.userId origin name s₁.now) u
        (userOf_some hu).1 rfl (by rw [hsync]; exact ho.refNum hbefore)
      have hfalse := herr.symm.trans hok
      cases hfalse
    have hs₂ : s₂.toTables = ((Stmt.insertSyncState
        (newSyncState refNum u.userId origin name s₁.now)).apply s₁.toTables).2 := (exec_eq hexec).2
    have husers : s₂.users = s₁.users := by rw [hs₂]; rfl
    have hu₂ : s₂.userOf auth.identityKey = some u := by
      rw [Tables.userOf, husers]
      exact hu
    have hfind : s₂.syncStates.find
        (fun ss => ss.userId == u.userId && ss.storageIdentityKey == origin) =
          [(newSyncState refNum u.userId origin name s₁.now).stored (s₁.syncStates.lastId + 1)] := by
      have hinsert := @Table.find_insert _ _ s₁.syncStates
        (newSyncState refNum u.userId origin name s₁.now).stored (fun _ => rfl)
        fun ss => ss.userId == u.userId && ss.storageIdentityKey == origin
      rw [hrows] at hinsert
      rw [hs₂]
      refine hinsert.trans ?_
      simp [newSyncState, SyncState.stored]
    refine h _ ((newSyncState refNum u.userId origin name s₁.now).stored
      (s₁.syncStates.lastId + 1)) s₂ ⟨?_, ?_, ?_, ?_, .inr ⟨hbefore, rfl, rfl⟩, rfl⟩ rfl rfl rfl
    · intro u' hu'
      rw [Tables.userOf, husers] at hu'
      exact huser u' hu'
    · intro k'
      rw [choiceOf_congr husers, hchoice]
    · rw [Tables.syncStateOf, hu₂, Option.bind_some, Table.first_eq_head, hfind, List.head?_cons]
    · intro u' hu'
      rw [hu₂] at hu'
      cases hu'
      exact hfind

/-- Opening the state writes none of the twelve tables. -/
theorem wp_findOrInsertSyncStateAuth_tables {refNum name : String} {auth : AuthId} :
    wp Stmt.exec (findOrInsertSyncStateAuth refNum auth origin name)
      (fun _ s' => ∀ e, s'.table e = s.table e) (fun _ => True) s := by
  have hemits : (findOrInsertSyncStateAuth refNum auth origin name).Emits fun w =>
      ∀ e : Entity, w.target ≠ e.target := by
    refine Emits.bind (Emits.bind (emits_findOrInsertUser _ fun _ e => ?_) fun user => ?_) fun userId => ?_
    · exact e.target_ne_users.symm
    · obtain ⟨user, _⟩ := user
      cases auth.userId with
      | none => exact Emits.pure _
      | some claimed =>
        simp only
        split
        · exact Emits.fail _
        · exact Emits.pure _
    · refine Emits.bind (Emits.bind (Emits.ask _) fun _ => Emits.ofExcept _) fun found => ?_
      cases found with
      | some ss => exact Emits.pure _
      | none =>
        refine Emits.bind (Emits.ask _) fun _ => Emits.bind (Emits.exec fun e => ?_) fun _ => Emits.pure _
        exact e.target_ne_syncStates.symm
  refine wp_mono (hemits.wp (I := fun s' => ∀ e, s'.table e = s.table e) ?_ fun _ => rfl)
    (fun _ _ h => h) fun _ _ => trivial
  intro w s₁ n s₂ hw h₁ hexec e
  rw [exec_table hexec (hw e), h₁]

/-! ## The provider's call -/

/-- `process_sync_chunk` on a pair whose state is open: the chunk is merged and the state written. -/
theorem wp_processSyncChunk {args : RequestSyncChunkArgs} {chunk : SyncChunk} {u : User}
    {ss : SyncState} {map : SyncMap} {Q : ProcessSyncChunkResult → Store → Prop}
    (hkey : chunk.userIdentityKey = args.identityKey) (hu : s.userOf args.identityKey = some u)
    (hss : s.syncStates.find (fun ss => ss.userId == u.userId &&
      ss.storageIdentityKey == args.fromStorageIdentityKey) = [ss])
    (hmap : ss.map "failed to parse persisted sync_map" = .ok map)
    (h : wp Stmt.exec (mergeChunk chunk map) (fun merged s₁ =>
      ∀ n, ∀ s₂ : Store, (Stmt.updateSyncState ss.syncStateId
        { syncMap := some (if chunk.isEmpty then merged.map.resetCounts else merged.map)
          syncedAt := if chunk.isEmpty then withUser merged.map.maxUpdatedAt chunk.user
            else none }).exec s₁ = .ok (n, s₂) →
        Q { done := chunk.isEmpty, maxUpdatedAt := withUser merged.map.maxUpdatedAt chunk.user
            updates := merged.updates, inserts := merged.inserts } s₂) E s) :
    wp Stmt.exec (processSyncChunk args chunk) Q E s := by
  unfold processSyncChunk
  rw [if_neg (by simp [hkey]), wp_bind, hkey]
  apply wp_findOrInsertUser
  · intro v hv
    rw [hu, Option.some.injEq] at hv
    subst hv
    rw [wp_bind]
    unfold findSyncState
    rw [wp_bind, wp_ask, hss]
    show wp Stmt.exec (Prog.ofExcept (ss.map _) >>= _) _ _ s
    rw [hmap, wp_bind]
    show wp Stmt.exec (mergeChunk chunk map >>= _) _ _ s
    rw [wp_bind]
    refine wp_mono h (fun merged s₁ hmerged => ?_) fun _ h => h
    unfold exec'
    simp only [wp_bind]
    exact wp_exec hmerged fun _ herr => (Stmt.Plain.not_refused herr trivial).elim
  · intro hnone
    rw [hu] at hnone
    cases hnone

/-! ## The user record -/

def User.choice (u : User) : Choice :=
  ⟨u.activeStorage, u.updatedAt⟩

/-- What a record that arrives makes of a choice: a later choice replaces it. -/
def Choice.received (own : Choice) : Option Choice → Choice
  | none => own
  | some incoming => if own.updatedAt < incoming.updatedAt then incoming else own

theorem Choice.received_received (own : Choice) (incoming : Option Choice) :
    (own.received incoming).received incoming = own.received incoming := by
  cases incoming with
  | none => rfl
  | some c =>
    by_cases h : own.updatedAt < c.updatedAt
    · simp [Choice.received, h]
    · simp [Choice.received, h]

/-- The record of a chunk is about the user of the pair, whose row is there. -/
theorem wp_mergeUser {chunk : SyncChunk} {u : User} {Q : Nat → Store → Prop}
    (hu : s.userOf k = some u) (hchunk : ∀ v ∈ chunk.user, v.identityKey = k)
    (h : ∀ n, ∀ s' : Store,
      s'.choiceOf k = (s.choiceOf k).received (chunk.user.map User.choice) →
      (s'.userOf k).map (·.userId) = some u.userId → s'.syncStates = s.syncStates →
      (∀ e, s'.table e = s.table e) → Q n s') :
    wp Stmt.exec (mergeUser chunk) Q E s := by
  unfold mergeUser
  cases hv : chunk.user with
  | none =>
    refine h 0 s ?_ (by rw [hu, Option.map_some]) rfl fun _ => rfl
    rw [hv]
    rfl
  | some v =>
    have hown : s.choiceOf k = u.choice := choiceOf_of_userOf hu
    simp only [wp_bind]
    rw [hchunk v hv]
    apply wp_findOrInsertUser
    · intro w hw
      rw [hu, Option.some.injEq] at hw
      subst hw
      by_cases hnewer : u.updatedAt < v.updatedAt
      · simp only [hnewer, if_true, wp_bind]
        unfold exec'
        rw [wp_bind]
        refine wp_exec (fun n s' hexec => ?_) fun _ herr => (Stmt.Plain.not_refused herr trivial).elim
        have hs' := (exec_eq hexec).2
        refine h 1 s' ?_ ?_ (exec_syncStates hexec (by rintro ⟨⟩)) fun e =>
          exec_table hexec e.target_ne_users.symm
        · rw [hs', choiceOf_updateUser hu, if_pos rfl, hown, hv]
          have hmax : max v.updatedAt u.updatedAt = v.updatedAt := Nat.max_eq_left (Nat.le_of_lt hnewer)
          simp [Choice.received, User.choice, hnewer, hmax]
        · rw [hs', userOf_updateUser, hu, Option.map_some, Option.map_some]
          simp [UserPartial.apply]
      · simp only [hnewer, if_false]
        refine h 0 s ?_ (by rw [hu, Option.map_some]) rfl fun _ => rfl
        rw [hown, hv]
        simp [Choice.received, User.choice, hnewer]
    · intro hnone
      rw [hu] at hnone
      cases hnone

/-- Merging a chunk on a pair whose user row is there. -/
theorem wp_mergeChunk {chunk : SyncChunk} {map : SyncMap} {u : User} {Q : MergeState → Store → Prop}
    (hu : s.userOf chunk.userIdentityKey = some u)
    (hchunk : ∀ v ∈ chunk.user, v.identityKey = chunk.userIdentityKey)
    (h : ∀ updates, ∀ s₁ : Store,
      s₁.choiceOf chunk.userIdentityKey =
        (s.choiceOf chunk.userIdentityKey).received (chunk.user.map User.choice) →
      (s₁.userOf chunk.userIdentityKey).map (·.userId) = some u.userId →
      s₁.syncStates = s.syncStates → (∀ e, s₁.table e = s.table e) →
      wp Stmt.exec (Entity.mergeOrder.foldlM (mergeEntity u.userId chunk) { map, updates }) Q E s₁) :
    wp Stmt.exec (mergeChunk chunk map) Q E s := by
  unfold mergeChunk
  rw [wp_bind]
  refine wp_mergeUser hu hchunk fun updates s₁ hchoice hid hsync htables => ?_
  rw [wp_bind, wp_findUserByIdentityKey]
  obtain ⟨u₁, hu₁, hid₁⟩ := Option.map_eq_some_iff.mp hid
  rw [hu₁]
  simp only [hid₁]
  exact h updates s₁ hchoice hid hsync htables

/-- Merging rows leaves what the users table says and the sync states. -/
theorem wp_mergeEntities_frame {chunk : SyncChunk} {userId : Nat} {st : MergeState} {es : List Entity} :
    wp Stmt.exec (es.foldlM (mergeEntity userId chunk) st)
      (fun _ s' => s'.users = s.users ∧ s'.syncStates = s.syncStates) (fun _ => True) s := by
  refine wp_mono ((emits_mergeEntities userId chunk st es).wp
    (I := fun s' => s'.users = s.users ∧ s'.syncStates = s.syncStates) ?_ ⟨rfl, rfl⟩)
    (fun _ _ h => h) fun _ _ => trivial
  rintro w s₁ n s₂ ⟨husers, hsync⟩ ⟨h₁, h₂⟩ hexec
  exact ⟨(exec_users hexec husers).trans h₁, (exec_syncStates hexec hsync).trans h₂⟩

/-! ## The reader's answer -/

/-- What a chunk holds: the user's record when it is not older than the window, and the rows that
the budgets allow. -/
theorem getSyncChunk_ok {size : RowSize} {reader : Store} {args : RequestSyncChunkArgs}
    {chunk : SyncChunk} (h : getSyncChunk size reader args = .ok chunk) :
    ∃ v offsets, reader.userOf args.identityKey = some v ∧ readOffsets args.offsets = .ok offsets ∧
      args.validate = .ok () ∧
      chunk =
        { fromStorageIdentityKey := args.fromStorageIdentityKey
          toStorageIdentityKey := args.toStorageIdentityKey
          userIdentityKey := args.identityKey
          user := if args.since.any (v.updatedAt ≤ ·) then none else some v
          rows := chunkEntities size args.maxItems (reader.changedRows v.userId args.since) offsets
            Entity.all (fun _ => none)
            { itemCount := args.maxItems, roughSize := args.maxRoughSize } } := by
  unfold getSyncChunk at h
  obtain ⟨_, hvalid, h⟩ := except_bind_ok h
  obtain ⟨offsets, hoffsets, h⟩ := except_bind_ok h
  rw [find_identityKey] at h
  cases hv : reader.userOf args.identityKey with
  | none =>
    rw [hv] at h
    cases h
  | some v =>
    rw [hv] at h
    cases h
    exact ⟨v, offsets, rfl, hoffsets, hvalid, rfl⟩

/-- The user record of a chunk is that of the user it was asked for. -/
theorem getSyncChunk_user {size : RowSize} {reader : Store} {args : RequestSyncChunkArgs}
    {chunk : SyncChunk} (h : getSyncChunk size reader args = .ok chunk) :
    ∀ u ∈ chunk.user, u.identityKey = chunk.userIdentityKey := by
  obtain ⟨v, offsets, hv, _, _, rfl⟩ := getSyncChunk_ok h
  intro u hu
  simp only at hu
  split at hu
  · cases hu
  · cases hu
    exact (userOf_some hv).2

end WalletToolbox.Storage

namespace WalletToolbox.Manager

open WalletToolbox.Lib WalletToolbox.Storage
open WalletToolbox.Lib.Prog hiding pure exec

variable {s : Store}

/-- The request of a pair whose state says how far it has come. -/
def SyncPair.request (pair : SyncPair) (since : Option Nat) (map : SyncMap) : RequestSyncChunkArgs :=
  { fromStorageIdentityKey := pair.reader.storageIdentityKey
    toStorageIdentityKey := pair.writer.storageIdentityKey
    identityKey := pair.auth.identityKey, since := since
    maxRoughSize := pair.limits.maxRoughSize, maxItems := pair.limits.maxItems
    offsets := Entity.all.map fun e => ((map.get e).entityName, ((map.get e).count : Int)) }

/-- The column that a merged chunk leaves in the sync state. -/
def chunkOutcome (chunk : SyncChunk) (merged : MergeState) : SyncStatePartial :=
  { syncMap := some (if chunk.isEmpty then merged.map.resetCounts else merged.map)
    syncedAt := if chunk.isEmpty then withUser merged.map.maxUpdatedAt chunk.user else none }

/-- What a turn needs before the merge: the state can be opened and read, and the reader answers. -/
structure Answered (pair : SyncPair) (reader s : Store) : Prop where
  opens : Opens s pair.refNum pair.reader.storageIdentityKey pair.auth
  answer : ∃ map chunk, s.progressOf pair.auth.identityKey pair.reader.storageIdentityKey = .ok map ∧
    getSyncChunk pair.size reader (pair.request
      (s.windowOf pair.auth.identityKey pair.reader.storageIdentityKey) map) = .ok chunk

/-- One turn: the state of the pair is opened, the reader answers a request that depends on it, the
chunk is merged and the state written. -/
theorem wp_syncChunk {pair : SyncPair} {reader : Store} {E : Store → Prop}
    {Q : RequestSyncChunkArgs × SyncChunk × ProcessSyncChunkResult → Store → Prop}
    (hE : Answered pair reader s ∨ ∀ s', E s')
    (h : ∀ ss s₁ map chunk, PairOpen s pair.auth pair.reader.storageIdentityKey ss s₁ →
      (∀ e, s₁.table e = s.table e) → ss.map "failed to parse persisted sync_map" = .ok map →
      getSyncChunk pair.size reader (pair.request ss.syncedAt map) = .ok chunk →
      wp Stmt.exec (mergeChunk chunk map) (fun merged s₂ =>
        ∀ n, ∀ s₃ : Store,
          (Stmt.updateSyncState ss.syncStateId (chunkOutcome chunk merged)).exec s₂ = .ok (n, s₃) →
          Q (pair.request ss.syncedAt map, chunk,
            { done := chunk.isEmpty, maxUpdatedAt := withUser merged.map.maxUpdatedAt chunk.user
              updates := merged.updates, inserts := merged.inserts }) s₃) E s₁) :
    wp Stmt.exec (syncChunk pair reader) Q E s := by
  unfold syncChunk
  rw [wp_bind]
  have hopened : wp Stmt.exec (findOrInsertSyncStateAuth pair.refNum pair.auth
      pair.reader.storageIdentityKey pair.reader.storageName) (fun r s₁ => ∃ ss,
        PairOpen s pair.auth pair.reader.storageIdentityKey ss s₁ ∧
        r.1.syncMap = ss.syncMap ∧ r.1.syncedAt = ss.syncedAt ∧
        r.1.storageIdentityKey = ss.storageIdentityKey) E s :=
    wp_findOrInsertSyncStateAuth (hE.imp_left (·.opens)) fun r ss s₁ h₁ h₂ h₃ h₄ => ⟨ss, h₁, h₂, h₃, h₄⟩
  refine wp_mono (wp_and hopened wp_findOrInsertSyncStateAuth_tables) ?_ fun _ h => h.1
  rintro r s₁ ⟨⟨ss, hopen, hmap, hsince, horigin⟩, htables⟩
  -- the answer is to the request of the state that was opened
  have hanswer : Answered pair reader s → ∃ map chunk,
      ss.map "failed to parse persisted sync_map" = .ok map ∧
      getSyncChunk pair.size reader (pair.request ss.syncedAt map) = .ok chunk := by
    rintro ⟨_, map, chunk, hprogress, hchunk⟩
    exact ⟨map, chunk, by rw [← hopen.progress, hprogress], by rwa [hopen.window]⟩
  rw [wp_bind]
  refine wp_ofExcept (fun args hargs => ?_) fun err herr => hE.elim (fun ha => ?_) fun h => h s₁
  swap
  · obtain ⟨map, _, hread, _⟩ := hanswer ha
    unfold makeRequestSyncChunkArgs SyncState.map at herr
    unfold SyncState.map at hread
    rw [hmap] at herr
    cases hm : ss.syncMap with
    | blank | parsed _ =>
      rw [hm] at herr
      cases herr
    | invalid => simp [hm] at hread
  obtain ⟨map, hmap', hargs⟩ := except_bind_ok hargs
  have hread : ss.map "failed to parse persisted sync_map" = .ok map := by
    unfold SyncState.map at hmap' ⊢
    rw [hmap] at hmap'
    cases hm : ss.syncMap with
    | blank | parsed _ => simpa only [hm] using hmap'
    | invalid => simp [hm] at hmap'
  have hargs : args = pair.request ss.syncedAt map := by
    cases hargs
    rw [SyncPair.request, horigin, hsince, hopen.origin]
  subst hargs
  rw [wp_bind]
  refine wp_ofExcept (fun chunk hchunk => ?_) fun err herr => hE.elim (fun ha => ?_) fun h => h s₁
  swap
  · obtain ⟨map', chunk, hread', hchunk⟩ := hanswer ha
    rw [hread, Except.ok.injEq] at hread'
    subst hread'
    rw [hchunk] at herr
    cases herr
  obtain ⟨v, offsets, hv, _, _, hfields⟩ := getSyncChunk_ok hchunk
  rw [wp_bind]
  obtain ⟨u, hu, _⟩ := Option.bind_eq_some_iff.mp hopen.state
  exact wp_processSyncChunk (by rw [hfields]) hu (hopen.only u hu) hread
    (h ss s₁ map chunk hopen htables hread hchunk)

end WalletToolbox.Manager
