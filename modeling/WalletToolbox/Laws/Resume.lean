import WalletToolbox.Laws.SyncRound

/-! # A chunk that is merged twice

The writes of a chunk commit one by one and the sync map is written last.
A row that an interrupted run has merged is settled: it is found again and is not older than the
incoming row, so the second run leaves it and translates its id as before. -/

namespace WalletToolbox.Storage

open WalletToolbox.Lib
open WalletToolbox.Lib.Prog hiding pure exec

variable {s s' : Store} {k : String}

/-! ## How the tables of a writer change -/

/-- A row at a later point of a merge: the same row, not older. -/
structure Later (e : Entity) (l l' : e.Row) : Prop where
  key : key l' = key l
  natural : e.natural l' = e.natural l
  updatedAt : e.updatedAt l ≤ e.updatedAt l'

theorem Later.refl {e : Entity} (l : e.Row) : Later e l l :=
  ⟨rfl, rfl, Nat.le_refl _⟩

theorem Later.trans {e : Entity} {a b c : e.Row} (h : Later e a b) (h' : Later e b c) : Later e a c :=
  ⟨h'.key.trans h.key, h'.natural.trans h.natural, Nat.le_trans h.updatedAt h'.updatedAt⟩

/-- The store at a later point of a merge. -/
structure Evolved (s s' : Store) : Prop where
  now : s'.now = s.now
  users : s'.users = s.users
  syncStates : s'.syncStates = s.syncStates
  tables : ∀ e, Table.Extends (Later e) (s.table e) (s'.table e)

theorem Evolved.refl (s : Store) : Evolved s s :=
  ⟨rfl, rfl, rfl, fun _ => Table.Extends.refl Later.refl _⟩

theorem Evolved.trans {s₁ s₂ s₃ : Store} (h : Evolved s₁ s₂) (h' : Evolved s₂ s₃) : Evolved s₁ s₃ :=
  ⟨h'.now.trans h.now, h'.users.trans h.users, h'.syncStates.trans h.syncStates,
    fun e => (h.tables e).trans Later.trans (h'.tables e)⟩

theorem OnlyTable.evolved {e : Entity} (h : OnlyTable e s s')
    (htable : Table.Extends (Later e) (s.table e) (s'.table e)) : Evolved s s' := by
  refine ⟨h.now, h.users, h.syncStates, fun e' => ?_⟩
  by_cases he : e' = e
  · subst he
    exact htable
  · rw [h.table e' he]
    exact Table.Extends.refl Later.refl _

section Row

variable {userId : Nat} {e : Entity} {m : SyncMap} {r : e.Row} {res : Except WalletError SyncMap}

theorem updatedAt_merged {r₀ l : e.Row} (he : e ≠ .provenTx) :
    e.updatedAt (e.merged r₀ l) = max (e.updatedAt r₀) (e.updatedAt l) := by
  cases e <;> first | rfl | exact absurd rfl he

theorem RowMerged.evolved (h : RowMerged userId e m r s res s') : Evolved s s' := by
  cases h with
  | untranslated _ | refused _ _ | kept _ _ _ => exact Evolved.refl s
  | inserted _ _ htable honly =>
    refine honly.evolved ?_
    rw [htable]
    exact Table.Extends.insert Later.refl
  | @updated r₀ l s' _ hfound hkind _ htable honly =>
    refine honly.evolved ?_
    rw [htable]
    refine Table.Extends.update Later.refl fun x hx hp => ?_
    obtain ⟨hl, hnatural⟩ := Table.first_some hfound
    obtain rfl : x = l := Table.eq_of_key_eq hx hl (by simpa using hp)
    refine ⟨e.key_merged r₀ x, Entity.natural_merged (by simpa using hnatural), ?_⟩
    rw [updatedAt_merged hkind]
    exact Nat.le_max_right _ _

/-- A row that has been merged: it is found and need not be updated. -/
structure Settled (userId : Nat) (e : Entity) (m : SyncMap) (r : e.Row)
    (res : Except WalletError SyncMap) (s : Store) : Prop where
  found : ∃ r₀ l, e.translate userId (m.received e r) r = .ok r₀ ∧ s.localRow e r₀ = some l ∧
    (e = .provenTx ∨ e.updatedAt r ≤ e.updatedAt l) ∧ res = (m.received e r).link e r (key l)

theorem Settled.evolved (h : Settled userId e m r res s) (hs : Evolved s s') :
    Settled userId e m r res s' := by
  obtain ⟨r₀, l, htranslate, hfound, hold, hres⟩ := h.found
  obtain ⟨l', hfound', hlater⟩ := (hs.tables e).first (fun h => by rw [h.natural]) hfound
  refine ⟨r₀, l', htranslate, hfound', ?_, ?_⟩
  · exact hold.imp_right fun hle => Nat.le_trans hle hlater.updatedAt
  · rw [hres, hlater.key]

/-- A merged row is settled, unless nothing was done for it. -/
theorem RowMerged.settled (h : RowMerged userId e m r s res s')
    (hwhole : toSeconds (e.updatedAt r) = e.updatedAt r) :
    Settled userId e m r res s' ∨ (s' = s ∧ ∃ err, res = .error err) := by
  cases h with
  | untranslated _ | refused _ _ => exact .inr ⟨rfl, _, rfl⟩
  | @kept r₀ l h hfound hold => exact .inl ⟨r₀, l, h, hfound, hold, rfl⟩
  | @updated r₀ l s' h hfound hkind hnewer htable _ =>
    obtain ⟨hl, hnatural⟩ := Table.first_some hfound
    refine .inl ⟨r₀, e.merged r₀ l, h, ?_, .inr ?_, by rw [e.key_merged]⟩
    · unfold Tables.localRow
      rw [htable, Table.first_update_of_mem]
      · have hfirst : (s.table e).first (fun l => decide (e.natural l = e.natural r₀)) = some l := hfound
        rw [hfirst]
        simp
      · intro x hx hp
        obtain rfl : x = l := Table.eq_of_key_eq hx hl (by simpa using hp)
        rw [Entity.natural_merged (by simpa using hnatural)]
    · rw [updatedAt_merged hkind, Entity.updatedAt_translate h]
      exact Nat.le_max_left _ _
  | @inserted r₀ s' h hnone htable _ =>
    refine .inl ⟨r₀, e.stored r₀ ((s.table e).lastId + 1), h, ?_, .inr ?_, by rw [e.key_stored]⟩
    · unfold Tables.localRow
      rw [htable]
      exact Table.first_insert hnone (by simp [Entity.natural_stored])
    · rw [e.updatedAt_stored, Entity.updatedAt_translate h, hwhole]

/-- Merging a settled row again writes nothing. -/
theorem Settled.run (h : Settled userId e m r res s) {st : MergeState} (hst : st.map = m) :
    ∃ out, (mergeRow userId e st r).run Stmt.exec s = (out, s) ∧ out.map MergeState.map = res := by
  obtain ⟨r₀, l, htranslate, hfound, hold, rfl⟩ := h.found
  obtain ⟨out, res, s', hrun, hout, hmerged⟩ := run_mergeRow userId e st r s
  rw [hst] at hmerged
  have hsame : ∀ r₁, e.translate userId (m.received e r) r = .ok r₁ → r₁ = r₀ := fun r₁ h₁ => by
    rw [htranslate] at h₁
    cases h₁
    rfl
  have hnot : ¬(e ≠ .provenTx ∧ e.updatedAt l < e.updatedAt r) := fun ⟨hkind, hlt⟩ => by
    rcases hold with hold | hold
    · exact hkind hold
    · omega
  cases hmerged with
  | untranslated h =>
    rw [htranslate] at h
    cases h
  | refused h hwrite =>
    rw [hsame _ h] at hwrite
    exact absurd (hwrite l hfound) hnot
  | kept h hfound' _ =>
    rw [hsame _ h, hfound] at hfound'
    cases hfound'
    exact ⟨out, hrun, hout⟩
  | updated h hfound' hkind hnewer _ _ =>
    rw [hsame _ h, hfound] at hfound'
    cases hfound'
    exact absurd ⟨hkind, hnewer⟩ hnot
  | inserted h hnone _ _ =>
    rw [hsame _ h, hfound] at hnone
    cases hnone

/-- Both have the same sync map; the counts of writes may differ. -/
def SameMap (a b : MergeState) : Prop :=
  b.map = a.map

/-- The counts do not matter for what is written. -/
theorem agree_mergeRow {st st' : MergeState} (hst : SameMap st st') :
    Agree SameMap ((mergeRow userId e st r).run Stmt.exec s) ((mergeRow userId e st' r).run Stmt.exec s) := by
  unfold mergeRow
  rw [hst]
  refine Agree.bind fun merge s₁ _ => ?_
  unfold mergeWith
  refine Agree.bind fun found s₂ _ => ?_
  cases found with
  | none =>
    refine Agree.bind fun id s₃ _ => Agree.bind fun map s₄ _ => Agree.pure ?_ s₄
    rfl
  | some l =>
    refine Agree.bind fun n s₃ _ => Agree.bind fun map s₄ _ => Agree.pure ?_ s₄
    rfl

/-- Merging a row issues at most one statement. -/
theorem length_trace_mergeRow (st : MergeState) (s : Store) :
    ((mergeRow userId e st r).trace Stmt.exec s).length ≤ 1 := by
  have hlink : ∀ (x : Except WalletError SyncMap) (f : SyncMap → MergeState) (s₁ : Store),
      ((Prog.ofExcept x >>= fun map => (pure (f map) : StorageProg MergeState)).trace Stmt.exec s₁).length
        ≤ 0 := by
    intro x f s₁
    refine length_trace_bind (m := 0) (n := 0) ?_ fun _ _ _ => Nat.le_refl 0
    simp [trace_ofExcept]
  refine length_trace_bind (m := 0) (n := 1) (by simp [trace_ofExcept]) fun merge s₁ _ => ?_
  refine length_trace_bind (m := 0) (n := 1) (Nat.le_refl 0) fun found s₂ _ => ?_
  cases found with
  | none => exact length_trace_bind (length_trace_exec _ _) fun id s₃ _ => hlink _ _ s₃
  | some l =>
    refine length_trace_bind (m := 1) (n := 0) ?_ fun n s₃ _ => hlink _ _ s₃
    unfold updateLocal
    split
    · split
      · refine length_trace_bind (m := 1) (n := 0) ?_ fun _ _ _ => Nat.le_refl 0
        exact length_trace_bind (m := 1) (n := 0) (length_trace_exec _ _) fun _ _ _ => Nat.le_refl 0
      · exact Nat.zero_le 1
    · exact Nat.zero_le 1

end Row

/-! ## The rows of a chunk -/

theorem interrupted_mergeItem (userId : Nat) (st : MergeState) (x : Σ e : Entity, e.Row) (n : Nat)
    (s : Store) : (mergeItem userId st x).interrupted Stmt.exec n s = s ∨
      (mergeItem userId st x).interrupted Stmt.exec n s = ((mergeItem userId st x).run Stmt.exec s).2 :=
  interrupted_cases (length_trace_mergeRow st s) n

theorem agree_of_map {out out' : Except WalletError MergeState} (s : Store)
    (h : out'.map MergeState.map = out.map MergeState.map) : Agree SameMap (out, s) (out', s) := by
  cases out with
  | error err =>
    cases out' with
    | error err' =>
      cases h
      exact Agree.refl_error err s
    | ok st' => cases h
  | ok st =>
    cases out' with
    | error err' => cases h
    | ok st' => exact ⟨rfl, fun a ha => ⟨st', rfl, by cases ha; exact Except.ok.inj h⟩, nofun⟩

/-- Wherever a merge stops, the store has only evolved. -/
theorem passes_items (userId : Nat) (items : List (Σ e : Entity, e.Row)) (st : MergeState) (s : Store) :
    Passes Stmt.exec (items.foldlM (mergeItem userId) st) (Evolved s) s := by
  induction items generalizing st s with
  | nil => exact fun _ => Evolved.refl s
  | cons x items ih =>
    obtain ⟨out, res, s₁, hrun, _, hmerged⟩ := run_mergeRow userId x.1 st x.2 s
    rw [List.foldlM_cons]
    refine Passes.bind (fun n => ?_) fun st₁ s₂ hrow n => ?_
    · rcases interrupted_mergeItem userId st x n s with h | h
      · rw [h]
        exact Evolved.refl s
      · rw [h, mergeItem, hrun]
        exact hmerged.evolved
    · obtain rfl : s₂ = s₁ := by
        rw [mergeItem, hrun, Prod.mk.injEq] at hrow
        exact hrow.2.symm
      exact hmerged.evolved.trans (ih st₁ s₂ n)

/-- A merge that is interrupted and starts again ends as if it had not been interrupted. -/
theorem resumes_items (userId : Nat) {items : List (Σ e : Entity, e.Row)}
    (hwhole : ∀ x ∈ items, toSeconds (x.1.updatedAt x.2) = x.1.updatedAt x.2) {st st' : MergeState}
    (hst : SameMap st st') (s : Store) :
    Resumes Stmt.exec SameMap (items.foldlM (mergeItem userId) st) (items.foldlM (mergeItem userId) st')
      s := by
  induction items generalizing st st' s with
  | nil => exact fun _ => Agree.pure hst s
  | cons x items ih =>
    obtain ⟨out, res, s₁, hrun, hout, hmerged⟩ := run_mergeRow userId x.1 st x.2 s
    have hsettled := hmerged.settled (hwhole x List.mem_cons_self)
    rw [List.foldlM_cons, List.foldlM_cons]
    refine Resumes.bind (R := SameMap) (fun n => ?_) (fun st₁ s₂ hrow n => ?_) fun st₁ st₂ s₂ hrow hsame =>
      ih (fun y hy => hwhole y (List.mem_cons_of_mem x hy)) hsame s₂
    · rcases interrupted_mergeItem userId st x n s with h | h
      · rw [h]
        exact agree_mergeRow hst
      · rw [h, mergeItem, mergeItem, hrun]
        rcases hsettled with hsettled | ⟨hsame, _⟩
        · obtain ⟨out', hagain, hout'⟩ := hsettled.run hst
          rw [hagain]
          exact agree_of_map s₁ (hout'.trans hout.symm)
        · have hagree := @agree_mergeRow s userId x.1 x.2 st st' hst
          rw [hrun] at hagree
          rw [hsame] at hagree ⊢
          exact hagree
    · rw [mergeItem, hrun, Prod.mk.injEq] at hrow
      obtain ⟨rfl, rfl⟩ := hrow
      rcases hsettled with hsettled | ⟨_, err, rfl⟩
      · -- the rows that follow keep it settled
        have hlater := hsettled.evolved (passes_items userId items st₁ s₁ n)
        obtain ⟨out', hagain, hout'⟩ := hlater.run hst
        rw [← hout] at hout'
        cases out' with
        | error err => cases hout'
        | ok st₂ => exact ⟨st₂, Except.ok.inj hout', hagain⟩
      · cases hout

/-! ## The user record -/

theorem run_findUserByIdentityKey (s : Store) :
    (findUserByIdentityKey k).run Stmt.exec s = (.ok (s.userOf k), s) := by
  unfold findUserByIdentityKey
  rw [run_bind_of_ok (run_ask _ s), run_ofExcept, find_identityKey]

theorem trace_findUserByIdentityKey (s : Store) :
    (findUserByIdentityKey k).trace Stmt.exec s = [] := by
  unfold findUserByIdentityKey
  rw [trace_bind, run_ask]
  exact trace_ofExcept _ s

theorem run_findOrInsertUser {u : User} (hu : s.userOf k = some u) :
    (findOrInsertUser k).run Stmt.exec s = (.ok (u, false), s) := by
  unfold findOrInsertUser
  rw [run_bind_of_ok (run_findUserByIdentityKey s), hu]
  rfl

theorem trace_findOrInsertUser {u : User} (hu : s.userOf k = some u) :
    (findOrInsertUser k).trace Stmt.exec s = [] := by
  unfold findOrInsertUser
  rw [trace_bind, trace_findUserByIdentityKey, run_findUserByIdentityKey, hu]
  rfl

/-- The user record of a chunk has been merged. -/
def UserMerged (k : String) (chunk : SyncChunk) (s : Store) : Prop :=
  ∃ u, s.userOf k = some u ∧ ∀ v ∈ chunk.user, v.updatedAt ≤ u.updatedAt

theorem UserMerged.run {chunk : SyncChunk} (h : UserMerged k chunk s)
    (hchunk : ∀ v ∈ chunk.user, v.identityKey = k) :
    (mergeUser chunk).run Stmt.exec s = (.ok 0, s) := by
  obtain ⟨u, hu, hold⟩ := h
  unfold mergeUser
  cases hv : chunk.user with
  | none => rfl
  | some v =>
    have hnot : ¬u.updatedAt < v.updatedAt := Nat.not_lt.mpr (hold v hv)
    simp only [hchunk v hv]
    rw [run_bind_of_ok (run_findOrInsertUser hu)]
    simp only [hnot, if_false]
    rfl

/-- The record is merged by one statement or by none. -/
theorem run_mergeUser {chunk : SyncChunk} {u : User} (hu : s.userOf k = some u)
    (hchunk : ∀ v ∈ chunk.user, v.identityKey = k) :
    ((mergeUser chunk).trace Stmt.exec s).length ≤ 1 ∧
      ((∃ err, (mergeUser chunk).run Stmt.exec s = (.error err, s)) ∨
        ∃ n s₁, (mergeUser chunk).run Stmt.exec s = (.ok n, s₁) ∧ UserMerged k chunk s₁ ∧
          (s₁.userOf k).map (·.userId) = some u.userId ∧ s₁.syncStates = s.syncStates) := by
  have hsame : (s.userOf k).map (·.userId) = some u.userId := by rw [hu, Option.map_some]
  unfold mergeUser UserMerged
  cases hv : chunk.user with
  | none => exact ⟨Nat.zero_le 1, .inr ⟨0, s, rfl, ⟨u, hu, nofun⟩, hsame, rfl⟩⟩
  | some v =>
    simp only [hchunk v hv]
    refine ⟨?_, ?_⟩
    · refine length_trace_bind (m := 0) (n := 1) (by rw [trace_findOrInsertUser hu]; simp) fun w s₁ _ => ?_
      split
      · refine length_trace_bind (m := 1) (n := 0) ?_ fun _ _ _ => Nat.le_refl 0
        exact length_trace_bind (m := 1) (n := 0) (length_trace_exec _ _) fun _ _ _ => Nat.le_refl 0
      · exact Nat.zero_le 1
    · rw [run_bind_of_ok (run_findOrInsertUser hu)]
      by_cases hnewer : u.updatedAt < v.updatedAt
      · simp only [hnewer, if_true]
        cases hexec : (Stmt.updateUser u.userId
            { activeStorage := some v.activeStorage
              updatedAt := some (max v.updatedAt u.updatedAt) }).exec s with
        | error err =>
          exact .inl ⟨err, run_bind_of_error (run_bind_of_error (run_exec_error hexec))⟩
        | ok answer =>
          refine .inr ⟨1, answer.2, run_bind_of_ok (run_bind_of_ok (run_exec_ok hexec)), ?_, ?_,
            exec_syncStates hexec nofun⟩
          · refine ⟨{ u with activeStorage := v.activeStorage, updatedAt := max v.updatedAt u.updatedAt },
              ?_, ?_⟩
            · rw [(exec_eq hexec).2, userOf_updateUser, hu, Option.map_some]
              simp [UserPartial.apply]
            · rintro _ ⟨⟩
              exact Nat.le_max_left _ _
          · rw [(exec_eq hexec).2, userOf_updateUser, hu, Option.map_some, Option.map_some]
            simp [UserPartial.apply]
      · simp only [hnewer, if_false]
        refine .inr ⟨0, s, rfl, ⟨u, hu, ?_⟩, hsame, rfl⟩
        rintro _ ⟨⟩
        exact Nat.not_lt.mp hnewer

/-! ## The whole chunk -/

/-- What is merged once the user and the sync map are known. -/
def mergeAll (chunk : SyncChunk) (userId : Nat) (map : SyncMap) : StorageProg MergeState := do
  let updates ← mergeUser chunk
  chunk.items.foldlM (mergeItem userId) { map, updates }

theorem resumes_mergeAll {chunk : SyncChunk} {u : User} {map : SyncMap} (hu : s.userOf k = some u)
    (hchunk : ∀ v ∈ chunk.user, v.identityKey = k)
    (hwhole : ∀ x ∈ chunk.items, toSeconds (x.1.updatedAt x.2) = x.1.updatedAt x.2) :
    Resumes Stmt.exec SameMap (mergeAll chunk u.userId map) (mergeAll chunk u.userId map) s := by
  obtain ⟨hlength, hrun⟩ := run_mergeUser hu hchunk
  refine Resumes.bind (R := fun _ _ => True) (fun n => ?_) (fun updates s₁ hmerged n => ?_)
    fun updates updates' s₁ _ _ => resumes_items u.userId hwhole ?_ s₁
  · rcases interrupted_cases hlength n with h | h
    · rw [h]
      rcases (mergeUser chunk).run Stmt.exec s with ⟨err | updates, s₁⟩
      · exact Agree.refl_error err s₁
      · exact ⟨rfl, fun _ _ => ⟨updates, rfl, trivial⟩, nofun⟩
    · rw [h]
      rcases hrun with ⟨err, hrun⟩ | ⟨updates, s₁, hrun, hdone, _, _⟩
      · rw [hrun, hrun]
        exact Agree.refl_error err s
      · rw [hrun, hdone.run hchunk]
        exact ⟨rfl, fun _ _ => ⟨0, rfl, trivial⟩, nofun⟩
  · rcases hrun with ⟨err, hrun⟩ | ⟨_, s₂, hrun, ⟨v, hv, hold⟩, _, _⟩
    · rw [hrun] at hmerged
      cases hmerged
    · rw [hrun, Prod.mk.injEq] at hmerged
      obtain ⟨_, rfl⟩ := hmerged
      have hlater := passes_items u.userId chunk.items { map, updates } s₂ n
      have hdone : UserMerged k chunk
          ((chunk.items.foldlM (mergeItem u.userId) { map, updates }).interrupted Stmt.exec n s₂) := by
        refine ⟨v, ?_, hold⟩
        rw [Tables.userOf, hlater.users]
        exact hv
      exact ⟨0, trivial, hdone.run hchunk⟩
  · rfl

/-- Where a merge may stop, the user and the sync states can be found as before. -/
theorem passes_mergeAll {chunk : SyncChunk} {u : User} {map : SyncMap} (hu : s.userOf k = some u)
    (hchunk : ∀ v ∈ chunk.user, v.identityKey = k) :
    Passes Stmt.exec (mergeAll chunk u.userId map)
      (fun s' => (s'.userOf k).map (·.userId) = some u.userId ∧ s'.syncStates = s.syncStates) s := by
  obtain ⟨hlength, hrun⟩ := run_mergeUser hu hchunk
  have hstart : (s.userOf k).map (·.userId) = some u.userId ∧ s.syncStates = s.syncStates :=
    ⟨by rw [hu, Option.map_some], rfl⟩
  refine Passes.bind (fun n => ?_) fun updates s₁ hmerged n => ?_
  · rcases interrupted_cases hlength n with h | h
    · rw [h]
      exact hstart
    · rw [h]
      rcases hrun with ⟨err, hrun⟩ | ⟨updates, s₁, hrun, _, hid, hsync⟩
      · rw [hrun]
        exact hstart
      · rw [hrun]
        exact ⟨hid, hsync⟩
  · rcases hrun with ⟨err, hrun⟩ | ⟨_, s₂, hrun, _, hid, hsync⟩
    · rw [hrun] at hmerged
      cases hmerged
    · rw [hrun, Prod.mk.injEq] at hmerged
      obtain ⟨_, rfl⟩ := hmerged
      have hlater := passes_items u.userId chunk.items { map, updates } s₂ n
      refine ⟨?_, hlater.syncStates.trans hsync⟩
      rw [Tables.userOf, hlater.users]
      exact hid

/-- `processSyncChunk` up to the point where the sync state is written. -/
def receiveChunk (args : RequestSyncChunkArgs) (chunk : SyncChunk) :
    StorageProg (Option SyncState × MergeState) := do
  let (user, _) ← findOrInsertUser chunk.userIdentityKey
  let existing ← findSyncState user.userId args.fromStorageIdentityKey
  let map ← match existing with
    | some ss => Prog.ofExcept (ss.map "failed to parse persisted sync_map")
    | none => pure {}
  let merged ← mergeChunk chunk map
  pure (existing, merged)

/-- The last statement of `processSyncChunk`. -/
def recordProgress (chunk : SyncChunk) (received : Option SyncState × MergeState) :
    StorageProg ProcessSyncChunkResult := do
  let done := chunk.isEmpty
  let maxUpdatedAt := withUser received.2.map.maxUpdatedAt chunk.user
  match received.1 with
  | some ss =>
    exec' (.updateSyncState ss.syncStateId
      { syncMap := some (if done then received.2.map.resetCounts else received.2.map)
        syncedAt := if done then maxUpdatedAt else none })
  | none => pure ()
  pure { done, maxUpdatedAt, updates := received.2.updates, inserts := received.2.inserts }

theorem processSyncChunk_eq {args : RequestSyncChunkArgs} {chunk : SyncChunk}
    (hkey : chunk.userIdentityKey = args.identityKey) :
    processSyncChunk args chunk = receiveChunk args chunk >>= recordProgress chunk := by
  unfold processSyncChunk receiveChunk recordProgress
  rw [if_neg (by simp [hkey])]
  simp only [bind_assoc]
  refine bind_congr fun user => bind_congr fun existing => ?_
  cases existing <;> simp only [bind_assoc, pure_bind]

theorem mergeChunk_found {chunk : SyncChunk} {u : User} {map : SyncMap}
    (hu : s.userOf chunk.userIdentityKey = some u)
    (hchunk : ∀ v ∈ chunk.user, v.identityKey = chunk.userIdentityKey) :
    (mergeChunk chunk map).run Stmt.exec s = (mergeAll chunk u.userId map).run Stmt.exec s ∧
      ∀ n, (mergeChunk chunk map).interrupted Stmt.exec n s =
        (mergeAll chunk u.userId map).interrupted Stmt.exec n s := by
  have hfound : ∀ updates s₁, (mergeUser chunk).run Stmt.exec s = (.ok updates, s₁) →
      ∃ u₁, s₁.userOf chunk.userIdentityKey = some u₁ ∧ u₁.userId = u.userId := by
    intro updates s₁ hrun
    rcases (run_mergeUser hu hchunk).2 with ⟨err, herr⟩ | ⟨_, s₂, hok, _, hid, _⟩
    · rw [herr] at hrun
      cases hrun
    · rw [hok, Prod.mk.injEq] at hrun
      obtain ⟨_, rfl⟩ := hrun
      exact Option.map_eq_some_iff.mp hid
  unfold mergeChunk mergeAll
  refine ⟨?_, interrupted_bind_congr fun updates s₁ hrun n => ?_⟩
  · rw [run_bind, run_bind]
    rcases hrun : (mergeUser chunk).run Stmt.exec s with ⟨err | updates, s₁⟩
    · rfl
    · obtain ⟨u₁, hu₁, hid⟩ := hfound updates s₁ hrun
      simp only [run_bind_of_ok (run_findUserByIdentityKey s₁), hu₁, hid, foldlM_mergeEntity]
  · obtain ⟨u₁, hu₁, hid⟩ := hfound updates s₁ hrun
    rw [interrupted_bind_of_read (run_findUserByIdentityKey s₁) (trace_findUserByIdentityKey s₁) n]
    simp only [hu₁, hid, foldlM_mergeEntity]

/-- Once the user, the state and the map are found, receiving a chunk is merging it. -/
theorem receiveChunk_found {args : RequestSyncChunkArgs} {chunk : SyncChunk} {userId : Nat}
    {ss : SyncState} {map : SyncMap}
    (hid : (s.userOf chunk.userIdentityKey).map (·.userId) = some userId)
    (hchunk : ∀ v ∈ chunk.user, v.identityKey = chunk.userIdentityKey)
    (hss : verifyOneOrNone (s.syncStates.find fun x =>
      x.userId == userId && x.storageIdentityKey == args.fromStorageIdentityKey) = .ok (some ss))
    (hmap : ss.map "failed to parse persisted sync_map" = .ok map) :
    (receiveChunk args chunk).run Stmt.exec s =
        (((mergeAll chunk userId map).run Stmt.exec s).1.map fun merged => (some ss, merged),
          ((mergeAll chunk userId map).run Stmt.exec s).2) ∧
      ∀ n, (receiveChunk args chunk).interrupted Stmt.exec n s =
        (mergeAll chunk userId map).interrupted Stmt.exec n s := by
  obtain ⟨u, hu, rfl⟩ := Option.map_eq_some_iff.mp hid
  have hstate : (findSyncState u.userId args.fromStorageIdentityKey).run Stmt.exec s =
      (.ok (some ss), s) := by
    unfold findSyncState
    rw [run_bind_of_ok (run_ask _ s), run_ofExcept, hss]
  have htrace : (findSyncState u.userId args.fromStorageIdentityKey).trace Stmt.exec s = [] := by
    unfold findSyncState
    rw [trace_bind, run_ask]
    exact trace_ofExcept _ s
  obtain ⟨hrun, hinterrupted⟩ := @mergeChunk_found s chunk u map hu hchunk
  unfold receiveChunk
  refine ⟨?_, fun n => ?_⟩
  · rw [run_bind_of_ok (run_findOrInsertUser hu), run_bind_of_ok hstate]
    simp only [hmap]
    show (mergeChunk chunk map >>= fun merged => pure (some ss, merged)).run Stmt.exec s = _
    rw [run_bind, hrun]
    rcases (mergeAll chunk u.userId map).run Stmt.exec s with ⟨err | merged, s₁⟩ <;> rfl
  · rw [interrupted_bind_of_read (run_findOrInsertUser hu) (trace_findOrInsertUser hu),
      interrupted_bind_of_read hstate htrace]
    simp only [hmap]
    show (mergeChunk chunk map >>= fun merged => pure (some ss, merged)).interrupted Stmt.exec n s = _
    rw [← hinterrupted, interrupted_bind]
    split
    · rfl
    · rename_i hn
      rw [interrupted_of_le (Nat.not_lt.mp hn)]
      rcases (mergeChunk chunk map).run Stmt.exec s with ⟨err | merged, s₁⟩ <;> rfl

/-! ## The clock -/

/-- A statement that does not look at the clock: an insert, or an update that brings its stamp. -/
def Stmt.Stamped : Stmt → Prop
  | .updateUser _ p => p.updatedAt.isSome
  | .updateOutputBasket _ p => p.updatedAt.isSome
  | .updateTransaction _ p => p.updatedAt.isSome
  | .updateOutput _ p => p.updatedAt.isSome
  | .updateProvenTx _ p => p.updatedAt.isSome
  | .updateProvenTxReq _ p => p.updatedAt.isSome
  | .updateTxLabel _ p | .updateTxLabelMap _ _ p | .updateOutputTag _ p | .updateOutputTagMap _ _ p =>
    p.updatedAt.isSome
  | .updateCertificate _ p => p.updatedAt.isSome
  | .updateCertificateField _ _ p => p.updatedAt.isSome
  | .updateCommission _ p => p.updatedAt.isSome
  | .updateSyncState _ p => p.updatedAt.isSome
  | .markInputsSpent _ _ _ | .releaseInputsSpentBy _ _ => False
  | _ => True

attribute [local irreducible] toSeconds in
theorem apply_tick {w : Stmt} (hw : w.Stamped) (d : Tables) (now : Nat) :
    w.apply { d with now } = ((w.apply d).1, { (w.apply d).2 with now }) := by
  cases w with
  | updateUser _ p | updateOutputBasket _ p | updateTransaction _ p | updateOutput _ p
  | updateProvenTx _ p | updateProvenTxReq _ p | updateTxLabel _ p | updateTxLabelMap _ _ p | updateOutputTag _ p
  | updateOutputTagMap _ _ p | updateCertificate _ p | updateCertificateField _ _ p
  | updateCommission _ p | updateSyncState _ p =>
    obtain ⟨t, ht⟩ := Option.isSome_iff_exists.mp hw
    cases p
    cases ht
    rfl
  | markInputsSpent _ _ _ | releaseInputsSpentBy _ _ => exact hw.elim
  | _ => rfl

theorem exec_tick {w : Stmt} (hw : w.Stamped) (s : Store) (now : Nat) :
    w.exec (s.tick now) = (w.exec s).map fun r => (r.1, r.2.tick now) := by
  have happly : w.apply (s.tick now).toTables = ((w.apply s.toTables).1, { (w.apply s.toTables).2 with now }) :=
    apply_tick hw s.toTables now
  have hforeign : ({ (w.apply s.toTables).2 with now } : Tables).ForeignKeys ↔
      (w.apply s.toTables).2.ForeignKeys := ⟨fun h => { h with }, fun h => { h with }⟩
  have hunique : ({ (w.apply s.toTables).2 with now } : Tables).UniqueKeys ↔
      (w.apply s.toTables).2.UniqueKeys := ⟨fun h => { h with }, fun h => { h with }⟩
  simp only [Stmt.exec, happly, hforeign, hunique]
  split
  · split
    · rfl
    · rfl
  · rfl

theorem mergeOf_stamped {userId : Nat} {m : SyncMap} {e : Entity} {r : e.Row} {merge : Merge e.Row}
    (h : mergeOf userId m e r = .ok merge) :
    merge.insert.Stamped ∧ ∀ update ∈ merge.update, ∀ l, (update l).Stamped := by
  cases e with
  | output | certificateField | commission =>
    obtain ⟨_, _, h⟩ := except_bind_ok h
    cases h
    exact ⟨trivial, by rintro _ ⟨⟩ _; rfl⟩
  | txLabelMap | outputTagMap =>
    obtain ⟨_, _, h⟩ := except_bind_ok h
    obtain ⟨_, _, h⟩ := except_bind_ok h
    cases h
    exact ⟨trivial, by rintro _ ⟨⟩ _; rfl⟩
  | provenTx =>
    cases h
    exact ⟨trivial, nofun⟩
  | _ =>
    cases h
    exact ⟨trivial, by rintro _ ⟨⟩ _; rfl⟩

theorem ignores_exec {w : Stmt} (hw : w.Stamped) (s : Store) (now : Nat) :
    Ignores Stmt.exec (Store.tick · now) (exec w) s :=
  Ignores.exec (exec_tick hw s now)

theorem ignores_exec' {w : Stmt} (hw : w.Stamped) (s : Store) (now : Nat) :
    Ignores Stmt.exec (Store.tick · now) (exec' w) s :=
  Ignores.bind (ignores_exec hw s now) fun _ _ _ => Ignores.pure _

theorem ignores_mergeRow (userId : Nat) (e : Entity) (st : MergeState) (r : e.Row) (s : Store)
    (now : Nat) : Ignores Stmt.exec (Store.tick · now) (mergeRow userId e st r) s := by
  refine Ignores.bind (Ignores.ofExcept _) fun merge s₁ hmerge => ?_
  rw [run_ofExcept, Prod.mk.injEq] at hmerge
  obtain ⟨hinsert, hupdate⟩ := mergeOf_stamped hmerge.1
  refine Ignores.bind (Ignores.ask ?_) fun found s₂ _ => ?_
  · cases e <;> rfl
  · cases found with
    | none =>
      exact Ignores.bind (ignores_exec hinsert s₂ now) fun _ _ _ =>
        Ignores.bind (Ignores.ofExcept _) fun _ _ _ => Ignores.pure _
    | some l =>
      refine Ignores.bind ?_ fun _ _ _ => Ignores.bind (Ignores.ofExcept _) fun _ _ _ => Ignores.pure _
      unfold updateLocal
      cases hm : merge.update with
      | none => exact Ignores.pure _
      | some update =>
        simp only
        split
        · exact Ignores.bind (ignores_exec' (hupdate update hm l) s₂ now) fun _ _ _ => Ignores.pure _
        · exact Ignores.pure _

theorem ignores_mergeAll {chunk : SyncChunk} {u : User} {userId : Nat} {map : SyncMap} (hu : s.userOf k = some u)
    (hchunk : ∀ v ∈ chunk.user, v.identityKey = k) (now : Nat) :
    Ignores Stmt.exec (Store.tick · now) (mergeAll chunk userId map) s := by
  refine Ignores.bind ?_ fun updates s₁ _ => Ignores.foldlM (fun st x s₂ => ?_) _ s₁
  · unfold mergeUser
    cases hv : chunk.user with
    | none => exact Ignores.pure _
    | some v =>
      have hfound : Ignores Stmt.exec (Store.tick · now) (findOrInsertUser v.identityKey) s := by
        have hsame : (s.tick now).userOf k = some u := hu
        unfold Ignores
        rw [hchunk v hv, run_findOrInsertUser hu, run_findOrInsertUser hsame]
      refine Ignores.bind hfound fun w s₁ _ => ?_
      simp only
      split
      · refine Ignores.bind (ignores_exec' ?_ s₁ now) fun _ _ _ => Ignores.pure _
        rfl
      · exact Ignores.pure _
  · exact ignores_mergeRow userId x.1 st x.2 s₂ now

/-! ## The last statement -/

/-- The sync map and the window after the last statement; nothing else that is compared changes. -/
theorem run_recordProgress {chunk : SyncChunk} {ss : SyncState} {merged : MergeState} {origin : String}
    (hss : s.syncStateOf k origin = some ss) :
    ∃ s₁, (recordProgress chunk (some ss, merged)).run Stmt.exec s =
        (.ok { done := chunk.isEmpty, maxUpdatedAt := withUser merged.map.maxUpdatedAt chunk.user
               updates := merged.updates, inserts := merged.inserts }, s₁) ∧
      s₁.users = s.users ∧ (∀ e, s₁.table e = s.table e) ∧
      s₁.progressOf k origin = .ok (if chunk.isEmpty then merged.map.resetCounts else merged.map) ∧
      s₁.windowOf k origin = (if chunk.isEmpty then withUser merged.map.maxUpdatedAt chunk.user
        else none).or ss.syncedAt ∧
      ∃ w, (recordProgress chunk (some ss, merged)).trace Stmt.exec s = [(s, w)] ∧
        w.target = .syncStates := by
  let p : SyncStatePartial :=
    { syncMap := some (if chunk.isEmpty then merged.map.resetCounts else merged.map)
      syncedAt := if chunk.isEmpty then withUser merged.map.maxUpdatedAt chunk.user else none }
  obtain ⟨s₁, hexec, _⟩ := @Stmt.Plain.exec (.updateSyncState ss.syncStateId p) trivial s
  have hstate := syncStateOf_updateSyncState hss hexec
  have hrun : (exec' (.updateSyncState ss.syncStateId p)).run Stmt.exec s = (.ok (), s₁) :=
    run_bind_of_ok (run_exec_ok hexec)
  refine ⟨s₁, run_bind_of_ok hrun, exec_users hexec nofun, fun e => exec_table hexec e.target_ne_syncStates.symm, ?_, ?_,
    .updateSyncState ss.syncStateId p, ?_, rfl⟩
  · rw [Tables.progressOf, hstate]
    rfl
  · rw [Tables.windowOf, hstate]
    rfl
  · have htrace : (exec' (.updateSyncState ss.syncStateId p)).trace Stmt.exec s =
        [(s, .updateSyncState ss.syncStateId p)] := by
      unfold exec'
      rw [trace_bind, run_exec_ok hexec]
      simp only [Prog.exec, trace, hexec, trace_ofExcept]
      rfl
    refine (trace_bind _ _ s).trans ?_
    rw [htrace, hrun]
    rfl

/-- Several states for one pair: nothing is merged. -/
theorem receiveChunk_stuck {args : RequestSyncChunkArgs} {chunk : SyncChunk} {userId : Nat}
    {err : WalletError} (hid : (s.userOf chunk.userIdentityKey).map (·.userId) = some userId)
    (hss : verifyOneOrNone (s.syncStates.find fun x =>
      x.userId == userId && x.storageIdentityKey == args.fromStorageIdentityKey) = .error err) :
    (receiveChunk args chunk).run Stmt.exec s = (.error err, s) ∧
      ∀ n, (receiveChunk args chunk).interrupted Stmt.exec n s = s := by
  obtain ⟨u, hu, rfl⟩ := Option.map_eq_some_iff.mp hid
  have hstate : (findSyncState u.userId args.fromStorageIdentityKey).run Stmt.exec s =
      (.error err, s) := by
    unfold findSyncState
    rw [run_bind_of_ok (run_ask _ s), run_ofExcept, hss]
  have htrace : (findSyncState u.userId args.fromStorageIdentityKey).trace Stmt.exec s = [] := by
    unfold findSyncState
    rw [trace_bind, run_ask]
    exact trace_ofExcept _ s
  unfold receiveChunk
  refine ⟨?_, fun n => ?_⟩
  · rw [run_bind_of_ok (run_findOrInsertUser hu), run_bind_of_error hstate]
  · rw [interrupted_bind_of_read (run_findOrInsertUser hu) (trace_findOrInsertUser hu),
      interrupted_bind, hstate, htrace]
    rfl

end WalletToolbox.Storage

namespace WalletToolbox.Manager

open WalletToolbox.Lib WalletToolbox.Storage
open WalletToolbox.Lib.Prog hiding pure exec

/-- What two ends of a merge have in common: the outcome, the users, the rows of the twelve kinds,
and the sync map and window of the pair. The numbers of rows written are not compared. -/
structure SameEnd (identityKey origin : String)
    (x y : Except WalletError ProcessSyncChunkResult × Store) : Prop where
  outcome : (y.1.map fun r => (r.done, r.maxUpdatedAt)) = x.1.map fun r => (r.done, r.maxUpdatedAt)
  users : y.2.users = x.2.users
  table : ∀ e, y.2.table e = x.2.table e
  progress : y.2.progressOf identityKey origin = x.2.progressOf identityKey origin
  window : y.2.windowOf identityKey origin = x.2.windowOf identityKey origin

variable {pair : SyncPair} {reader s : Store} {map : SyncMap} {chunk : SyncChunk}
  {args : RequestSyncChunkArgs}

theorem chunk_items_mem {size : RowSize} (h : getSyncChunk size reader args = .ok chunk) :
    ∀ x ∈ chunk.items, x.2 ∈ reader.table x.1 := by
  obtain ⟨v, offsets, _, _, _, rfl⟩ := getSyncChunk_ok h
  intro x hx
  have hr := SyncChunk.mem_items.mp hx
  exact (mem_changedRows.mp (chunkEntities_subset Entity.all (fun _ => List.nil_subset _) x.1 hr)).1

/-- A chunk for the persisted sync state may be merged again after an interruption at any point
before the sync state is written, at any later time. -/
theorem processSyncChunk_resumes
    (hstate : (s.syncStateOf pair.auth.identityKey pair.reader.storageIdentityKey).isSome)
    (hmap : s.progressOf pair.auth.identityKey pair.reader.storageIdentityKey = .ok map)
    (hargs : args = pair.request (s.windowOf pair.auth.identityKey pair.reader.storageIdentityKey) map)
    (hchunk : getSyncChunk pair.size reader args = .ok chunk)
    (hwhole : ∀ e, ∀ r ∈ reader.table e, toSeconds (e.updatedAt r) = e.updatedAt r) (n now : Nat)
    (hn : ∀ x ∈ ((processSyncChunk args chunk).trace Stmt.exec s).take n, x.2.target ≠ .syncStates) :
    SameEnd pair.auth.identityKey pair.reader.storageIdentityKey
      ((processSyncChunk args chunk).run Stmt.exec s)
      ((processSyncChunk args chunk).run Stmt.exec
        (((processSyncChunk args chunk).interrupted Stmt.exec n s).tick now)) := by
  obtain ⟨ss, hss⟩ := Option.isSome_iff_exists.mp hstate
  obtain ⟨u, hu, hfirst⟩ := Option.bind_eq_some_iff.mp hss
  obtain ⟨v, offsets, hv, _, _, hfields⟩ := getSyncChunk_ok hchunk
  have hkey : chunk.userIdentityKey = args.identityKey := by rw [hfields]
  have hown : args.identityKey = pair.auth.identityKey := by rw [hargs]; rfl
  have horigin : args.fromStorageIdentityKey = pair.reader.storageIdentityKey := by rw [hargs]; rfl
  have hparse : ss.map "failed to parse persisted sync_map" = .ok map := by
    rw [Tables.progressOf, hss] at hmap
    exact hmap
  have hid : (s.userOf chunk.userIdentityKey).map (·.userId) = some u.userId := by
    rw [hkey, hown, hu, Option.map_some]
  have hrecord := getSyncChunk_user hchunk
  have hitems : ∀ x ∈ chunk.items, toSeconds (x.1.updatedAt x.2) = x.1.updatedAt x.2 := fun x hx =>
    hwhole x.1 x.2 (chunk_items_mem hchunk x hx)
  rw [processSyncChunk_eq hkey] at hn ⊢
  cases hverify : verifyOneOrNone (s.syncStates.find fun x =>
      x.userId == u.userId && x.storageIdentityKey == args.fromStorageIdentityKey) with
  | error err =>
    obtain ⟨hrun, hstop⟩ := receiveChunk_stuck hid hverify
    have hagain := (@receiveChunk_stuck (s.tick now) args chunk u.userId err hid hverify).1
    have hbefore : (receiveChunk args chunk >>= recordProgress chunk).interrupted Stmt.exec n s = s := by
      rw [interrupted_bind_first (C := fun x => x.2.target ≠ .syncStates) hn, hstop]
      intro received s₁ hok
      rw [hrun, Prod.mk.injEq] at hok
      cases hok.1
    rw [hbefore, run_bind_of_error hrun, run_bind_of_error hagain]
    exact ⟨rfl, rfl, fun e => by cases e <;> rfl, rfl, rfl⟩
  | ok found =>
    obtain rfl : found = some ss := by
      rw [← hfirst, ← horigin, verifyOneOrNone_first hverify]
    obtain ⟨hrun, hstop⟩ := receiveChunk_found hid hrecord hverify hparse
    have hu' : s.userOf chunk.userIdentityKey = some u := by rw [hkey, hown, hu]
    have hresumes := @resumes_mergeAll s chunk.userIdentityKey chunk u map hu' hrecord hitems n
    have hpasses := @passes_mergeAll s chunk.userIdentityKey chunk u map hu' hrecord
    have hlast : ((mergeAll chunk u.userId map).run Stmt.exec s).2.syncStateOf pair.auth.identityKey
        pair.reader.storageIdentityKey = some ss := by
      obtain ⟨hid₂, hsync₂⟩ := hpasses.last
      rw [← hss]
      rw [hkey, hown] at hid₂
      exact syncStateOf_congr (hid₂.trans (by rw [hu, Option.map_some])) hsync₂
    -- the state is written after everything else, so the interruption comes before
    have hbefore : (receiveChunk args chunk >>= recordProgress chunk).interrupted Stmt.exec n s =
        (mergeAll chunk u.userId map).interrupted Stmt.exec n s := by
      rw [interrupted_bind_first (C := fun x => x.2.target ≠ .syncStates) hn, hstop]
      intro received s₁ hok
      rw [hrun, Prod.mk.injEq] at hok
      obtain ⟨hok, rfl⟩ := hok
      obtain ⟨merged, rfl⟩ : ∃ merged, received = (some ss, merged) := by
        cases hmerged : ((mergeAll chunk u.userId map).run Stmt.exec s).1 with
        | error err =>
          rw [hmerged] at hok
          cases hok
        | ok merged =>
          rw [hmerged] at hok
          exact ⟨merged, (Except.ok.inj hok).symm⟩
      obtain ⟨_, _, _, _, _, _, w, htrace, hw⟩ := @run_recordProgress _ _ chunk ss merged _ hlast
      exact ⟨_, [], htrace, fun h => h hw⟩
    have hmiddle := hpasses n
    rw [hbefore]
    generalize (mergeAll chunk u.userId map).interrupted Stmt.exec n s = s₁ at hresumes hmiddle ⊢
    obtain ⟨hid₁, hsync₁⟩ := hmiddle
    obtain ⟨u₁, hu₁, _⟩ := Option.map_eq_some_iff.mp hid₁
    have hverify₁ : verifyOneOrNone ((s₁.tick now).syncStates.find fun x =>
        x.userId == u.userId && x.storageIdentityKey == args.fromStorageIdentityKey) = .ok (some ss) := by
      show verifyOneOrNone (s₁.syncStates.find _) = _
      rw [hsync₁, hverify]
    have hagain := (@receiveChunk_found (s₁.tick now) args chunk u.userId ss map hid₁ hrecord hverify₁ hparse).1
    have hclock := @ignores_mergeAll s₁ chunk.userIdentityKey chunk u₁ u.userId map hu₁ hrecord now
    unfold Ignores at hclock
    rw [hclock] at hagain
    rcases hend : (mergeAll chunk u.userId map).run Stmt.exec s with ⟨err | merged, s₂⟩
    · rw [hend] at hrun hresumes
      rw [hresumes.error err rfl, hresumes.store] at hagain
      rw [run_bind_of_error hrun, run_bind_of_error hagain]
      exact ⟨rfl, rfl, fun e => by cases e <;> rfl, rfl, rfl⟩
    · rw [hend] at hrun hresumes hlast
      obtain ⟨merged', hmerged', hsame⟩ := hresumes.ok merged rfl
      rw [hmerged', hresumes.store] at hagain
      have hlast' : (s₂.tick now).syncStateOf pair.auth.identityKey pair.reader.storageIdentityKey = some ss :=
        hlast
      obtain ⟨s₃, hrun₃, husers₃, htable₃, hprogress₃, hwindow₃, _⟩ :=
        @run_recordProgress _ _ chunk ss merged _ hlast
      obtain ⟨s₄, hrun₄, husers₄, htable₄, hprogress₄, hwindow₄, _⟩ :=
        @run_recordProgress _ _ chunk ss merged' _ hlast'
      rw [run_bind_of_ok hrun, run_bind_of_ok hagain, hrun₃, hrun₄]
      refine ⟨?_, ?_, fun e => ?_, ?_, ?_⟩
      · rw [Except.map, Except.map, hsame]
      · exact husers₄.trans husers₃.symm
      · rw [htable₄, htable₃]
        cases e <;> rfl
      · rw [hprogress₄, hprogress₃, hsame]
      · rw [hwindow₄, hwindow₃, hsame]

/-! ## A chunk that is sent again -/

/-- A store that has opened the sync state of the pair. -/
def sampleWriter : Store :=
  (Prog.run Stmt.exec (findOrInsertSyncStateAuth "" samplePair.auth "active" "")
    (Store.empty.tick 1700000010000)).2

def sampleArgs : RequestSyncChunkArgs :=
  samplePair.request (sampleWriter.windowOf "alice" "active") {}

def sampleChunk (reader : Store) : SyncChunk :=
  match getSyncChunk samplePair.size reader sampleArgs with
  | .ok chunk => chunk
  | .error _ =>
    { fromStorageIdentityKey := "", toStorageIdentityKey := "", userIdentityKey := "", user := none
      rows := fun _ => none }

theorem sampleChunk_ok {reader : Store}
    (h : (getSyncChunk samplePair.size reader sampleArgs).isOk = true) :
    getSyncChunk samplePair.size reader sampleArgs = .ok (sampleChunk reader) := by
  unfold sampleChunk
  cases hchunk : getSyncChunk samplePair.size reader sampleArgs with
  | ok chunk => rfl
  | error err =>
    rw [hchunk] at h
    cases h

/-- The sample chunk changes the user, adds a basket and writes the state; it is interrupted between
the last two. -/
theorem processSyncChunk_resumes_sample :
    SameEnd "alice" "active"
      ((processSyncChunk sampleArgs (sampleChunk sampleReader)).run Stmt.exec sampleWriter)
      ((processSyncChunk sampleArgs (sampleChunk sampleReader)).run Stmt.exec
        (((processSyncChunk sampleArgs (sampleChunk sampleReader)).interrupted Stmt.exec 2
          sampleWriter).tick 1700000099000)) := by
  refine @processSyncChunk_resumes samplePair sampleReader sampleWriter {} _ sampleArgs
    (by decide +kernel) rfl rfl (sampleChunk_ok (by decide +kernel)) ?_ 2 1700000099000
    (by decide +kernel)
  intro e
  cases e <;> decide +kernel

/-- The sample store after a merge from a store with finer stamps. -/
def finerReader : Store :=
  (Prog.run Stmt.exec
    (Storage.exec (.updateOutputBasket 1 { updatedAt := some 1700000000500 })) sampleReader).2

/-- A chunk that is sent again after the state was written is counted twice; and a row with a
fraction of a second is cut to the second when it is inserted, and gets the fraction when the chunk
is merged again. -/
theorem chunk_sent_again :
    (getSyncChunk samplePair.size sampleReader sampleArgs = .ok (sampleChunk sampleReader) ∧
      ¬SameEnd "alice" "active"
        ((processSyncChunk sampleArgs (sampleChunk sampleReader)).run Stmt.exec sampleWriter)
        ((processSyncChunk sampleArgs (sampleChunk sampleReader)).run Stmt.exec
          ((processSyncChunk sampleArgs (sampleChunk sampleReader)).interrupted Stmt.exec 3
            sampleWriter))) ∧
    (getSyncChunk samplePair.size finerReader sampleArgs = .ok (sampleChunk finerReader) ∧
      ¬SameEnd "alice" "active"
        ((processSyncChunk sampleArgs (sampleChunk finerReader)).run Stmt.exec sampleWriter)
        ((processSyncChunk sampleArgs (sampleChunk finerReader)).run Stmt.exec
          ((processSyncChunk sampleArgs (sampleChunk finerReader)).interrupted Stmt.exec 2
            sampleWriter))) := by
  refine ⟨⟨sampleChunk_ok (by decide +kernel), fun h => ?_⟩,
    ⟨sampleChunk_ok (by decide +kernel), fun h => ?_⟩⟩
  · have hcount := congrArg (fun m => m.toOption.map (·.outputBasket.count)) h.progress
    exact absurd hcount (by decide +kernel)
  · have htimes := congrArg (fun t => t.rows.map (Entity.updatedAt .outputBasket)) (h.table .outputBasket)
    exact absurd htimes (by decide +kernel)

end WalletToolbox.Manager
