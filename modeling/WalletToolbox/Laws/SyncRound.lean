import Mathlib.Algebra.Order.BigOperators.Group.List
import Mathlib.Algebra.Order.Group.Nat
import WalletToolbox.Laws.Chunks
import WalletToolbox.Laws.Merge

/-! # A sync round

The writer counts the rows it receives and the counts are the offsets of the next request, so a
round goes through the rows of the reader from the first to the last, kind by kind.
Its length is bounded by the number of rows, and what it delivers does not depend on the budgets. -/

namespace WalletToolbox.Storage

open WalletToolbox.Lib
open WalletToolbox.Lib.Prog hiding pure exec

variable {s : Store} {k origin : String}

/-! ## Counts and times -/

theorem max?_append_left (l t : List Nat) : (l ++ t).max? = (l.max?.toList ++ t).max? := by
  cases l with
  | nil => rfl
  | cons a l =>
    rw [List.cons_append, List.max?_cons', List.max?_cons', Option.toList_some, List.singleton_append,
      List.max?_cons', List.foldl_append]

/-- The map of a kind after rows with some times were received. -/
structure Received (m m' : EntitySyncMap) (times : List Nat) : Prop where
  entityName : m'.entityName = m.entityName
  count : m'.count = m.count + times.length
  maxUpdatedAt : m'.maxUpdatedAt = (m.maxUpdatedAt.toList ++ times).max?

namespace Received

variable {m m' m'' : EntitySyncMap}

theorem refl (m : EntitySyncMap) : Received m m [] := by
  refine ⟨rfl, rfl, ?_⟩
  cases m.maxUpdatedAt <;> rfl

theorem trans {times times' : List Nat} (h : Received m m' times) (h' : Received m' m'' times') :
    Received m m'' (times ++ times') := by
  refine ⟨h'.entityName.trans h.entityName, ?_, ?_⟩
  · rw [h'.count, h.count, List.length_append, Nat.add_assoc]
  · rw [h'.maxUpdatedAt, h.maxUpdatedAt, ← max?_append_left, List.append_assoc]

end Received

theorem received_received (m : SyncMap) (e : Entity) (r : e.Row) (e' : Entity) :
    Received (m.get e') ((m.received e r).get e') (if e' = e then [e.updatedAt r] else []) := by
  unfold SyncMap.received
  by_cases he : e' = e
  · subst he
    rw [if_pos rfl, SyncMap.get_set_self]
    refine ⟨?_, ?_, ?_⟩
    · unfold EntitySyncMap.updateMax
      split
      · split <;> rfl
      · rfl
    · unfold EntitySyncMap.updateMax
      split
      · split <;> rfl
      · rfl
    · unfold EntitySyncMap.updateMax
      cases hm : (m.get e').maxUpdatedAt with
      | none => rfl
      | some current =>
        simp only
        split
        · rename_i hle
          simp [hm, Nat.max_eq_left hle]
        · rename_i hlt
          simp [Nat.max_eq_right (Nat.le_of_not_le hlt)]
  · rw [if_neg he, SyncMap.get_set_of_ne m _ he]
    exact Received.refl _

theorem received_link {m m' : SyncMap} {e : Entity} {r : e.Row} {id : Nat}
    (h : m.link e r id = .ok m') (e' : Entity) : Received (m.get e') (m'.get e') [] := by
  unfold SyncMap.link at h
  split at h
  · obtain ⟨esm, hesm, h⟩ := except_bind_ok h
    cases h
    by_cases he : e' = e
    · subst he
      rw [SyncMap.get_set_self]
      have hsame : esm.entityName = (m.get e').entityName ∧ esm.count = (m.get e').count ∧
          esm.maxUpdatedAt = (m.get e').maxUpdatedAt := by
        unfold EntitySyncMap.mapId at hesm
        split at hesm
        · split at hesm
          · cases hesm
            exact ⟨rfl, rfl, rfl⟩
          · cases hesm
        · cases hesm
          exact ⟨rfl, rfl, rfl⟩
      have hrefl := Received.refl (m.get e')
      exact ⟨hsame.1, hsame.2.1, hsame.2.2.trans hrefl.maxUpdatedAt⟩
    · rw [SyncMap.get_set_of_ne m _ he]
      exact Received.refl _
  · cases h
    exact Received.refl _

/-- A merged row is counted once. -/
theorem wp_mergeRow_received {userId : Nat} {e : Entity} {st : MergeState} {r : e.Row} :
    wp Stmt.exec (mergeRow userId e st r) (fun st' _ =>
      ∀ e', Received (st.map.get e') (st'.map.get e') (if e' = e then [e.updatedAt r] else []))
      (fun _ => True) s := by
  have hreceived : ∀ {m' : SyncMap} {id : Nat}, (st.map.received e r).link e r id = .ok m' →
      ∀ e', Received (st.map.get e') (m'.get e') (if e' = e then [e.updatedAt r] else []) := by
    intro m' id hlink e'
    have h := (received_received st.map e r e').trans (received_link hlink e')
    rwa [List.append_nil] at h
  unfold mergeRow
  simp only [wp_bind]
  refine wp_ofExcept (fun merge _ => ?_) fun _ _ => trivial
  unfold mergeWith
  rw [wp_bind, wp_ask]
  cases (s.table e).first merge.isLocal with
  | none =>
    simp only [wp_bind]
    refine wp_exec (fun id s₁ _ => ?_) fun _ _ => trivial
    refine wp_ofExcept (fun m' hm' => ?_) fun _ _ => trivial
    exact hreceived hm'
  | some existing =>
    simp only [wp_bind]
    refine wp_mono (Q := fun _ _ => True) (E := fun _ => True) ?_ (fun updated s₁ _ => ?_) fun _ _ => trivial
    · unfold wp
      split <;> trivial
    · refine wp_ofExcept (fun m' hm' => ?_) fun _ _ => trivial
      exact hreceived hm'

/-- The times of the rows that a chunk has of a kind. -/
def SyncChunk.times (chunk : SyncChunk) (e : Entity) : List Nat :=
  ((chunk.rows e).getD []).map e.updatedAt

theorem wp_mergeRows_received {userId : Nat} {e : Entity} {rows : List e.Row} {st : MergeState} :
    wp Stmt.exec (rows.foldlM (mergeRow userId e) st) (fun st' _ =>
      ∀ e', Received (st.map.get e') (st'.map.get e') (if e' = e then rows.map e.updatedAt else []))
      (fun _ => True) s := by
  induction rows generalizing st s with
  | nil =>
    intro e'
    rw [List.map_nil, ite_self]
    exact Received.refl _
  | cons r rows ih =>
    rw [List.foldlM_cons, wp_bind]
    refine wp_mono wp_mergeRow_received (fun st₁ s₁ h₁ => ?_) fun _ h => h
    refine wp_mono ih (fun st₂ _ h₂ e' => ?_) fun _ h => h
    have h := (h₁ e').trans (h₂ e')
    by_cases he : e' = e
    · simpa only [if_pos he, List.singleton_append, List.map_cons] using h
    · simpa only [if_neg he, List.append_nil] using h

theorem wp_mergeEntities_received {userId : Nat} {chunk : SyncChunk} {es : List Entity}
    (hes : es.Nodup) {st : MergeState} :
    wp Stmt.exec (es.foldlM (mergeEntity userId chunk) st) (fun st' _ =>
      ∀ e, Received (st.map.get e) (st'.map.get e) (if e ∈ es then chunk.times e else []))
      (fun _ => True) s := by
  induction es generalizing st s with
  | nil =>
    intro e
    rw [if_neg List.not_mem_nil]
    exact Received.refl _
  | cons e₁ es ih =>
    obtain ⟨hnew, hes⟩ := List.nodup_cons.mp hes
    rw [List.foldlM_cons, wp_bind]
    refine wp_mono wp_mergeRows_received (fun st₁ s₁ h₁ => ?_) fun _ h => h
    refine wp_mono (ih hes) (fun st₂ _ h₂ e => ?_) fun _ h => h
    have h := (h₁ e).trans (h₂ e)
    by_cases he : e = e₁
    · subst he
      rw [if_pos rfl, if_neg hnew, List.append_nil] at h
      rw [if_pos List.mem_cons_self]
      exact h
    · rw [if_neg he, List.nil_append] at h
      simpa only [List.mem_cons, he, false_or] using h

/-- The kinds that the required and optional foreign keys of a kind refer to. -/
def Entity.references : Entity → List Entity
  | .transaction | .provenTxReq => [.provenTx]
  | .output => [.transaction, .outputBasket]
  | .txLabelMap => [.txLabel, .transaction]
  | .outputTagMap => [.outputTag, .output]
  | .certificateField => [.certificate]
  | .commission => [.transaction]
  | .provenTx | .outputBasket | .outputTag | .txLabel | .certificate => []

/-- A chunk is filled with what a kind refers to before the kind itself. -/
theorem Entity.references_before {e p : Entity} (h : p ∈ e.references) :
    ∃ before after, Entity.all = before ++ e :: after ∧ p ∈ before := by
  refine ⟨Entity.all.takeWhile (· ≠ e), (Entity.all.dropWhile (· ≠ e)).tail, ?_, ?_⟩
  · cases e <;> rfl
  · cases e <;> simp only [references, List.mem_cons, List.not_mem_nil, or_false] at h
    all_goals first
      | exact h.elim
      | subst h; decide
      | rcases h with rfl | rfl <;> decide

theorem Entity.required_references {e : Entity} {r : e.Row} {x : Entity × Nat} (h : x ∈ e.required r) :
    x.1 ∈ e.references ∧ x.1.hasId = true := by
  cases e <;> simp only [required, List.mem_cons, List.not_mem_nil, or_false] at h
  all_goals first
    | subst h; exact ⟨by simp [references], rfl⟩
    | rcases h with rfl | rfl <;> exact ⟨by simp [references], rfl⟩

/-- No row of a chunk is merged before one that it refers to. -/
theorem SyncChunk.items_ordered (chunk : SyncChunk) :
    chunk.items.Pairwise fun a b => b.1 ∉ a.1.references := by
  unfold SyncChunk.items
  rw [List.pairwise_flatMap]
  refine ⟨fun e _ => List.pairwise_map.mpr ?_, ?_⟩
  · have hself : e ∉ e.references := by cases e <;> decide
    exact List.pairwise_of_forall fun _ _ => hself
  · have horder : Entity.mergeOrder.Pairwise fun e p => p ∉ e.references := by decide
    refine horder.imp fun hne a ha b hb => ?_
    obtain ⟨_, _, rfl⟩ := List.mem_map.mp ha
    obtain ⟨_, _, rfl⟩ := List.mem_map.mp hb
    exact hne

theorem SyncChunk.items_nodup {chunk : SyncChunk} (h : ∀ e, ((chunk.rows e).getD []).Nodup) :
    chunk.items.Nodup := by
  unfold SyncChunk.items
  rw [List.nodup_flatMap]
  have horder : Entity.mergeOrder.Nodup := by decide
  refine ⟨fun e _ => (h e).map sigma_mk_injective, horder.imp fun hne => ?_⟩
  intro x hx hx'
  obtain ⟨_, _, rfl⟩ := List.mem_map.mp hx
  obtain ⟨_, _, heq⟩ := List.mem_map.mp hx'
  exact hne (congrArg Sigma.fst heq).symm

/-! ## The persisted progress -/

theorem syncStateOf_updateSyncState {n : Nat} {p : SyncStatePartial} {ss : SyncState} {s' : Store}
    (hss : s.syncStateOf k origin = some ss)
    (h : (Stmt.updateSyncState ss.syncStateId p).exec s = .ok (n, s')) :
    s'.syncStateOf k origin = some (p.apply s.now ss) := by
  obtain ⟨u, hu, hfirst⟩ := Option.bind_eq_some_iff.mp hss
  have hu' : s'.userOf k = some u := by
    rw [Tables.userOf, exec_users h (by rintro ⟨⟩)]
    exact hu
  rw [Tables.syncStateOf, hu', Option.bind_some, (exec_eq h).2]
  have hupdate := @Table.first_update _ _ s.syncStates (fun x => x.syncStateId == ss.syncStateId)
    (fun x => x.userId == u.userId && x.storageIdentityKey == origin) (p.apply s.now)
    (fun _ => rfl) fun _ => rfl
  refine hupdate.trans ?_
  rw [hfirst]
  simp

end WalletToolbox.Storage

namespace WalletToolbox.Manager

open WalletToolbox.Lib WalletToolbox.Storage
open WalletToolbox.Lib.Prog hiding pure exec

variable {pair : SyncPair} {reader s s' : Store}

/-! ## The rows of a round -/

theorem inOrder_perm (e : Entity) (rows : List e.Row) : (e.inOrder rows).Perm rows := by
  cases e with
  | txLabelMap | outputTagMap | certificateField => exact List.perm_insertionSort _ rows
  | _ => exact List.Perm.refl rows

theorem changedRows_nodup (d : Tables) (userId : Nat) (since : Option Nat) (e : Entity) :
    (d.changedRows userId since e).Nodup := by
  refine (inOrder_perm e _).nodup_iff.mpr ?_
  exact (Table.nodup_key_find (d.table e) _).of_map

theorem mem_changedRows {d : Tables} {userId : Nat} {since : Option Nat} {e : Entity} {r : e.Row} :
    r ∈ d.changedRows userId since e ↔
      r ∈ d.table e ∧ d.belongs userId e r = true ∧ changedSince since (e.updatedAt r) = true := by
  refine (inOrder_perm e _).mem_iff.trans ?_
  rw [Table.mem_find, Bool.and_eq_true]

/-- A time is never before its whole second. -/
theorem changedSince_of_le {since : Option Nat} {t : Nat} (h : ∀ w ∈ since, w ≤ t) :
    changedSince since t = true := by
  cases since with
  | none => rfl
  | some w =>
    have hle : toSeconds w ≤ w := Nat.div_mul_le_self w 1000
    have hw := h w rfl
    simp only [changedSince, decide_eq_true_eq]
    omega

/-! ## Turns -/

/-- The rows that a reader sends to a user with a window, in the order in which it sends them. -/
def sentRows (reader : Store) (identityKey : String) (since : Option Nat) (e : Entity) : List e.Row :=
  match reader.userOf identityKey with
  | none => []
  | some u => reader.changedRows u.userId since e

/-- The rows of the pair's round. -/
def roundRows (pair : SyncPair) (reader s : Store) (e : Entity) : List e.Row :=
  sentRows reader pair.auth.identityKey
    (s.windowOf pair.auth.identityKey pair.reader.storageIdentityKey) e

/-- The rows of the round that are not counted yet. -/
def pending (pair : SyncPair) (reader s : Store) (map : SyncMap) (e : Entity) : List e.Row :=
  (roundRows pair reader s e).drop (map.get e).count

/-- The names under which the counts are sent back are those of the kinds. -/
def Named (map : SyncMap) : Prop :=
  ∀ e, (map.get e).entityName = e.name

/-- What a turn that succeeds does to the persisted progress. -/
structure Turn (pair : SyncPair) (reader s : Store) (map : SyncMap) (chunk : SyncChunk)
    (merged : SyncMap) (s' : Store) : Prop where
  progress : s.progressOf pair.auth.identityKey pair.reader.storageIdentityKey = .ok map
  answer : getSyncChunk pair.size reader (pair.request
    (s.windowOf pair.auth.identityKey pair.reader.storageIdentityKey) map) = .ok chunk
  received : ∀ e, Received (map.get e) (merged.get e) (chunk.times e)
  next : s'.progressOf pair.auth.identityKey pair.reader.storageIdentityKey =
    .ok (if chunk.isEmpty then merged.resetCounts else merged)
  window : s'.windowOf pair.auth.identityKey pair.reader.storageIdentityKey =
    (if chunk.isEmpty then withUser merged.maxUpdatedAt chunk.user else none).or
      (s.windowOf pair.auth.identityKey pair.reader.storageIdentityKey)
  opens : Opens s' pair.refNum pair.reader.storageIdentityKey pair.auth
  user : (s'.userOf pair.auth.identityKey).map (·.userId) = some (s.userIdOf pair.auth.identityKey)
  merges : MergedItems (s.userIdOf pair.auth.identityKey) chunk.items map s merged s'

theorem Turn.named {map merged : SyncMap} {chunk : SyncChunk}
    (h : Turn pair reader s map chunk merged s') (hnamed : Named map) : Named merged :=
  fun e => (h.received e).entityName.trans (hnamed e)

/-- A chunk is filled with the rows that are not counted yet. -/
theorem filled_of_answer {map : SyncMap} {chunk : SyncChunk} (hnamed : Named map)
    (hchunk : getSyncChunk pair.size reader (pair.request
      (s.windowOf pair.auth.identityKey pair.reader.storageIdentityKey) map) = .ok chunk) :
    Filled (pending pair reader s map) chunk.rows Entity.all := by
  obtain ⟨v, offsets, hv, hoffsets, hvalid, hfields⟩ := getSyncChunk_ok hchunk
  have hread : offsets = fun e => ((map.get e).count : Int) := by
    have hnames : (Entity.all.map fun e => ((map.get e).entityName, ((map.get e).count : Int))) =
        Entity.all.map fun e => (e.name, ((map.get e).count : Int)) :=
      List.map_congr_left fun e _ => by rw [hnamed e]
    simp only [SyncPair.request, hnames, readOffsets_all, Except.ok.injEq] at hoffsets
    exact hoffsets.symm
  have hpos : 0 < pair.limits.maxItems := by
    unfold RequestSyncChunkArgs.validate at hvalid
    split at hvalid
    · cases hvalid
    · rename_i hlt
      simp only [SyncPair.request] at hlt
      omega
  have hrows : ∀ e, roundRows pair reader s e = reader.changedRows v.userId
      (s.windowOf pair.auth.identityKey pair.reader.storageIdentityKey) e := by
    intro e
    have hv : reader.userOf pair.auth.identityKey = some v := hv
    simp only [roundRows, sentRows, hv]
  have hfields := congrArg SyncChunk.rows hfields
  simp only [SyncPair.request, hread] at hfields
  unfold pending
  simp only [hrows, hfields]
  exact chunkEntities_filled Entity.all (by decide) _ rfl hpos

theorem roundRows_nodup (e : Entity) : (roundRows pair reader s e).Nodup := by
  unfold roundRows sentRows
  split
  · exact List.nodup_nil
  · exact changedRows_nodup _ _ _ e

theorem roundRows_length_le (e : Entity) :
    (roundRows pair reader s e).length ≤ (reader.table e).rows.length := by
  unfold roundRows sentRows
  split
  · exact Nat.zero_le _
  · refine (inOrder_perm e _).length_eq.trans_le ?_
    exact List.length_filter_le _ _

/-! ## When a turn succeeds -/

/-- What the rounds of a pair need to reach their end: the state can be opened, positive limits, a user
of the reader, rows whose references are translated or still to come, and a writer that takes each row
whose references are translated, whatever other rows it has merged before. -/
structure Ready (pair : SyncPair) (reader s : Store) (map : SyncMap) : Prop where
  progress : s.progressOf pair.auth.identityKey pair.reader.storageIdentityKey = .ok map
  named : Named map
  opens : Opens s pair.refNum pair.reader.storageIdentityKey pair.auth
  limits : 0 < pair.limits.maxItems ∧ 0 < pair.limits.maxRoughSize
  user : (reader.userOf pair.auth.identityKey).isSome
  closed : ∀ e, ∀ r ∈ pending pair reader s map e, ∀ x ∈ e.required r,
    map.Maps x.1 x.2 ∨ ∃ p ∈ pending pair reader s map x.1, key p = x.2
  taken : ∀ items st s₁, MergedItems (s.userIdOf pair.auth.identityKey) items map s st.map s₁ →
    (s₁.userOf pair.auth.identityKey).map (·.userId) = some (s.userIdOf pair.auth.identityKey) →
    ∀ x : Σ e : Entity, e.Row, (items ++ [x]).Nodup →
    (∀ y ∈ items ++ [x], y.2 ∈ pending pair reader s map y.1) →
    (∀ y ∈ x.1.required x.2, st.map.Maps y.1 y.2) →
    ((mergeItem (s.userIdOf pair.auth.identityKey) st x).run Stmt.exec s₁).1.isOk

section Ready

variable {map merged : SyncMap} {chunk : SyncChunk}

/-- The reader answers a valid request about a user that it has. -/
theorem Ready.answered (h : Ready pair reader s map) : Answered pair reader s := by
  refine ⟨h.opens, map, ?_⟩
  obtain ⟨v, hv⟩ := Option.isSome_iff_exists.mp h.user
  have hnames : (pair.request (s.windowOf pair.auth.identityKey pair.reader.storageIdentityKey) map).offsets =
      Entity.all.map fun e => (e.name, ((map.get e).count : Int)) :=
    List.map_congr_left fun e _ => by rw [h.named e]
  have hfind : (Entity.all.map fun e => (e.name, ((map.get e).count : Int))).find? (·.2 < 0) = none := by
    rw [List.find?_eq_none]
    intro x hx
    obtain ⟨e, _, rfl⟩ := List.mem_map.mp hx
    simp
  have hvalid : (pair.request (s.windowOf pair.auth.identityKey pair.reader.storageIdentityKey)
      map).validate = .ok () := by
    obtain ⟨hitems, hsize⟩ := h.limits
    have hitems : ¬pair.limits.maxItems < 1 := by omega
    have hsize : ¬pair.limits.maxRoughSize < 1 := by omega
    unfold RequestSyncChunkArgs.validate
    rw [hnames, hfind]
    simp only [SyncPair.request, hitems, hsize, if_false]
  unfold getSyncChunk
  rw [hvalid, hnames, readOffsets_all]
  simp only [find_identityKey]
  have hv' : reader.userOf (pair.request (s.windowOf pair.auth.identityKey
    pair.reader.storageIdentityKey) map).identityKey = some v := hv
  rw [hv']
  exact ⟨_, h.progress, rfl⟩

/-- The rows of the chunk are merged one after the other: what a row refers to was translated before the
chunk or comes earlier in it. -/
theorem Ready.wp_items (h : Ready pair reader s map)
    (hchunk : getSyncChunk pair.size reader (pair.request
      (s.windowOf pair.auth.identityKey pair.reader.storageIdentityKey) map) = .ok chunk)
    {post : List (Σ e : Entity, e.Row)} :
    ∀ {pre st s₁}, chunk.items = pre ++ post →
      MergedItems (s.userIdOf pair.auth.identityKey) pre map s st.map s₁ →
      (s₁.userOf pair.auth.identityKey).map (·.userId) = some (s.userIdOf pair.auth.identityKey) →
      wp Stmt.exec (post.foldlM (mergeItem (s.userIdOf pair.auth.identityKey)) st) (fun _ _ => True)
        (fun _ => False) s₁ := by
  have hfilled := filled_of_answer h.named hchunk
  have hpending : ∀ y ∈ chunk.items, y.2 ∈ pending pair reader s map y.1 := fun y hy =>
    (hfilled.isPrefix (Entity.mem_all y.1)).subset (SyncChunk.mem_items.mp hy)
  have hnodup : chunk.items.Nodup := SyncChunk.items_nodup fun e =>
    ((roundRows_nodup e).sublist (List.drop_sublist _ _)).sublist
      (hfilled.isPrefix (Entity.mem_all e)).sublist
  induction post with
  | nil => exact fun _ _ _ => trivial
  | cons x post ih =>
    intro pre st s₁ hitems hmerged hu
    have hsub : pre ++ [x] <+: chunk.items := ⟨post, by rw [hitems, List.append_assoc]; rfl⟩
    have hx : x ∈ chunk.items := hsub.subset (by simp)
    have hmapped : ∀ y ∈ x.1.required x.2, st.map.Maps y.1 y.2 := by
      intro y hy
      rcases h.closed x.1 x.2 (hpending x hx) y hy with hmapped | ⟨p, hp, hkey⟩
      · exact hmerged.maps.1 _ _ hmapped
      · -- the chunk holds all rows of the kind, and they are merged before this one
        obtain ⟨hrefers, hid⟩ := Entity.required_references hy
        obtain ⟨before, after, hall, hmem⟩ := Entity.references_before hrefers
        have hfull := hfilled.before hall (List.ne_nil_of_mem (SyncChunk.mem_items.mp hx)) hmem
        have hparent : (⟨y.1, p⟩ : Σ e : Entity, e.Row) ∈ chunk.items :=
          SyncChunk.mem_items.mpr (by rw [hfull]; exact hp)
        have hordered := chunk.items_ordered
        rw [hitems, List.pairwise_append, List.pairwise_cons] at hordered
        rw [hitems, List.mem_append, List.mem_cons] at hparent
        have hself : x.1 ∉ x.1.references := by cases x.1 <;> decide
        rcases hparent with hpre | heq | hpost
        · rw [← hkey]
          exact hmerged.maps.2 _ hpre hid
        · have hkind : y.1 = x.1 := congrArg Sigma.fst heq
          rw [hkind] at hrefers
          exact absurd hrefers hself
        · exact absurd hrefers (hordered.2.1.1 _ hpost)
    have hok := h.taken pre st s₁ hmerged hu x (hnodup.sublist hsub.sublist)
      (fun y hy => hpending y (hsub.subset hy)) hmapped
    obtain ⟨out, res, s₂, hrun, hout, hrow⟩ := run_mergeRow (s.userIdOf pair.auth.identityKey) x.1 st x.2 s₁
    rw [mergeItem, hrun] at hok
    rw [List.foldlM_cons, wp_bind]
    unfold wp mergeItem
    rw [hrun]
    cases out with
    | error err => cases hok
    | ok st₁ =>
      cases hout
      refine ih (by rw [hitems, List.append_assoc]; rfl)
        (hmerged.append (.cons (fun _ => rfl) hrow (.nil fun _ => rfl))) ?_
      rw [Tables.userOf, hrow.users]
      exact hu

/-- A turn succeeds when the pair is ready, and when it succeeds it is a turn. -/
theorem wp_syncChunk_turn {E : Store → Prop} (hE : (∃ map, Ready pair reader s map) ∨ ∀ s', E s') :
    wp Stmt.exec (syncChunk pair reader) (fun r s' => ∃ map merged,
      Turn pair reader s map r.2.1 merged s' ∧
      r.1 = pair.request (s.windowOf pair.auth.identityKey pair.reader.storageIdentityKey) map ∧
      r.2.2.done = r.2.1.isEmpty) E s := by
  refine wp_syncChunk (hE.imp_left fun h => h.choose_spec.answered)
    fun ss s₁ map chunk hopen hsame₁ hmap hchunk => ?_
  obtain ⟨v, offsets, hv, _, _, hfields⟩ := getSyncChunk_ok hchunk
  have hkey : chunk.userIdentityKey = pair.auth.identityKey := by rw [hfields]; rfl
  obtain ⟨u, hu, _⟩ := Option.bind_eq_some_iff.mp hopen.state
  obtain ⟨howns, howner⟩ := hopen.user u hu
  have hfind := hopen.only u hu
  have hprogress := hopen.progress
  rw [hmap] at hprogress
  rw [hopen.window] at hchunk
  refine wp_mergeChunk (by rw [hkey]; exact hu) (getSyncChunk_user hchunk)
    fun updates s₂ _ hid hsync hsame₂ => ?_
  rw [howner] at howns hfind hid ⊢
  rw [hkey] at hid
  have hsame : ∀ e, s₂.table e = s.table e := fun e => (hsame₂ e).trans (hsame₁ e)
  have hitems : wp Stmt.exec
      (Entity.mergeOrder.foldlM (mergeEntity (s.userIdOf pair.auth.identityKey) chunk) { map, updates })
      (fun merged s₃ => MergedItems (s.userIdOf pair.auth.identityKey) chunk.items map s merged.map s₃)
      E s₂ := by
    rw [foldlM_mergeEntity]
    have hmerged := @wp_mergeItems (s.userIdOf pair.auth.identityKey) chunk.items { map, updates } s₂
    rcases hE with ⟨map', hready⟩ | h
    · obtain rfl : map' = map := Except.ok.inj (hready.progress.symm.trans hprogress)
      have htotal := @Ready.wp_items _ _ _ _ _ hready hchunk chunk.items [] { map := map', updates } s₂
        rfl (.nil hsame) hid
      exact wp_mono (wp_and hmerged htotal) (fun _ _ h => h.1.congr_left hsame) fun _ h => h.2.elim
    · exact wp_mono hmerged (fun _ _ h => h.congr_left hsame) fun s' _ => h s'
  refine wp_mono (wp_and wp_mergeEntities_frame (wp_and (wp_mergeEntities_received (by decide)) hitems))
    ?_ fun _ h => h.2.2
  rintro merged s₃ ⟨hframe, hreceived, hmerged⟩ n s₄ hexec
  have hid₃ : (s₃.userOf pair.auth.identityKey).map (·.userId) = some (s.userIdOf pair.auth.identityKey) := by
    rw [Tables.userOf, hframe.1]
    exact hid
  have hid₄ : (s₄.userOf pair.auth.identityKey).map (·.userId) = some (s.userIdOf pair.auth.identityKey) := by
    rw [Tables.userOf, exec_users hexec (by rintro ⟨⟩)]
    exact hid₃
  have hstate : s₃.syncStateOf pair.auth.identityKey pair.reader.storageIdentityKey = some ss := by
    rw [← hopen.state]
    refine syncStateOf_congr ?_ (hframe.2.trans hsync)
    rw [hid₃, hu, Option.map_some, howner]
  have hnext := syncStateOf_updateSyncState hstate hexec
  refine ⟨map, merged.map, ⟨hprogress, hchunk, fun e => ?_, ?_, ?_, ⟨?_, fun u' hu' => ?_, ?_⟩,
    hid₄, ?_⟩, by rw [hopen.window], rfl⟩
  · have h := hreceived e
    rwa [if_pos (Entity.mem_mergeOrder e)] at h
  · rw [Tables.progressOf, hnext]
    rfl
  · rw [Tables.windowOf, hnext, ← hopen.window]
    rfl
  · rwa [Tables.userIdOf, hid₄, Option.getD_some]
  · rw [hu', Option.map_some, Option.some.injEq] at hid₄
    have hupdate := @Table.find_update _ _ s₃.syncStates (·.syncStateId == ss.syncStateId)
      (fun x => x.userId == u'.userId && x.storageIdentityKey == pair.reader.storageIdentityKey)
      ((chunkOutcome chunk merged).apply s₃.now) (fun _ => rfl) fun _ => rfl
    rw [← hsync, ← hframe.2, ← hid₄] at hfind
    rw [hfind] at hupdate
    rw [(exec_eq hexec).2]
    exact (congrArg List.length hupdate).le
  · intro hnone
    rw [hnext] at hnone
    cases hnone
  · exact hmerged.congr_right fun e => exec_table hexec e.target_ne_syncStates.symm

end Ready

/-- A turn read off its run. -/
theorem turn_of_run {args : RequestSyncChunkArgs} {chunk : SyncChunk} {r : ProcessSyncChunkResult}
    (hrun : (syncChunk pair reader).run Stmt.exec s = (.ok (args, chunk, r), s')) {map : SyncMap}
    (hmap : s.progressOf pair.auth.identityKey pair.reader.storageIdentityKey = .ok map) :
    ∃ merged, Turn pair reader s map chunk merged s' ∧
      args = pair.request (s.windowOf pair.auth.identityKey pair.reader.storageIdentityKey) map ∧
      r.done = chunk.isEmpty := by
  obtain ⟨map', merged, hturn, hargs, hdone⟩ := wp_ok (wp_syncChunk_turn (.inr fun _ => trivial)) hrun
  have hsame := hturn.progress
  rw [hmap, Except.ok.injEq] at hsame
  subst hsame
  exact ⟨merged, hturn, hargs, hdone⟩

/-- The turns of a round before its last one. -/
inductive Turns (pair : SyncPair) (reader : Store) : Store → List SyncChunk → Store → Prop
  | nil {s : Store} : Turns pair reader s [] s
  | cons {s s₁ s' : Store} {args : RequestSyncChunkArgs} {chunk : SyncChunk}
      {r : ProcessSyncChunkResult} {chunks : List SyncChunk}
      (run : (syncChunk pair reader).run Stmt.exec s = (.ok (args, chunk, r), s₁))
      (more : r.done = false) (rest : Turns pair reader s₁ chunks s') :
      Turns pair reader s (chunk :: chunks) s'

/-- The rows of a kind in some chunks. -/
def delivered (chunks : List SyncChunk) (e : Entity) : List e.Row :=
  chunks.flatMap fun chunk => (chunk.rows e).getD []

theorem delivered_cons (chunk : SyncChunk) (chunks : List SyncChunk) (e : Entity) :
    delivered (chunk :: chunks) e = (chunk.rows e).getD [] ++ delivered chunks e := rfl

/-- The number of rows that are not counted yet. -/
def remaining (pair : SyncPair) (reader s : Store) (map : SyncMap) : Nat :=
  (Entity.all.map fun e => (pending pair reader s map e).length).sum

section Turn

variable {map merged : SyncMap} {chunk : SyncChunk}

/-- A turn that is not the last one leaves the rows that it has not delivered. -/
theorem Turn.step (h : Turn pair reader s map chunk merged s') (hnamed : Named map)
    (hmore : chunk.isEmpty = false) :
    s'.progressOf pair.auth.identityKey pair.reader.storageIdentityKey = .ok merged ∧
      s'.windowOf pair.auth.identityKey pair.reader.storageIdentityKey =
        s.windowOf pair.auth.identityKey pair.reader.storageIdentityKey ∧
      (∀ e, (chunk.rows e).getD [] ++ pending pair reader s' merged e = pending pair reader s map e) ∧
      remaining pair reader s' merged < remaining pair reader s map := by
  have hfilled := filled_of_answer hnamed h.answer
  have hwindow := h.window
  have hnext := h.next
  simp only [hmore, Bool.false_eq_true, if_false, Option.none_or] at hwindow hnext
  have hsplit : ∀ e, (chunk.rows e).getD [] ++ pending pair reader s' merged e =
      pending pair reader s map e := by
    intro e
    obtain ⟨rest, hrest⟩ := hfilled.isPrefix (Entity.mem_all e)
    have hcount : (merged.get e).count = (map.get e).count + ((chunk.rows e).getD []).length := by
      rw [(h.received e).count, SyncChunk.times, List.length_map]
    rw [pending, roundRows, hwindow, ← roundRows, hcount, ← List.drop_drop, ← pending, ← hrest,
      List.drop_left]
  refine ⟨hnext, hwindow, hsplit, ?_⟩
  have hlength : ∀ e, (pending pair reader s map e).length =
      ((chunk.rows e).getD []).length + (pending pair reader s' merged e).length := by
    intro e
    rw [← hsplit e, List.length_append]
  have hrows : ¬∀ e ∈ Entity.all, pending pair reader s map e = [] := by
    intro hnil
    have hempty := hfilled.empty_iff.mpr hnil
    have htrue : chunk.isEmpty = true := by
      unfold SyncChunk.isEmpty
      rw [List.all_eq_true]
      intro e he
      rw [hempty e he]
      rfl
    rw [htrue] at hmore
    cases hmore
  obtain ⟨e, he, hne⟩ := hfilled.progress hrows
  unfold remaining
  refine List.sum_lt_sum _ _ (fun e _ => ?_) ⟨e, he, ?_⟩
  · have := hlength e
    omega
  · have := hlength e
    have hpos : 0 < ((chunk.rows e).getD []).length := List.length_pos_iff.mpr hne
    omega

/-- A pair stays ready until the round is over. -/
theorem Ready.step (h : Ready pair reader s map) (hturn : Turn pair reader s map chunk merged s')
    (hmore : chunk.isEmpty = false) : Ready pair reader s' merged := by
  obtain ⟨hnext, _, hsplit, _⟩ := hturn.step h.named hmore
  have hrest : ∀ e, ∀ r ∈ pending pair reader s' merged e, r ∈ pending pair reader s map e := by
    intro e r hr
    rw [← hsplit e]
    exact List.mem_append_right _ hr
  have hitems : ∀ x ∈ chunk.items, x.2 ∈ pending pair reader s map x.1 := by
    intro x hx
    rw [← hsplit x.1]
    exact List.mem_append_left _ (SyncChunk.mem_items.mp hx)
  have hnodup : ∀ e, ((chunk.rows e).getD [] ++ pending pair reader s' merged e).Nodup := by
    intro e
    rw [hsplit e]
    exact (roundRows_nodup e).sublist (List.drop_sublist _ _)
  have howner : s'.userIdOf pair.auth.identityKey = s.userIdOf pair.auth.identityKey := by
    rw [Tables.userIdOf, hturn.user, Option.getD_some]
  refine ⟨hnext, hturn.named h.named, hturn.opens, h.limits, h.user, ?_, ?_⟩
  · intro e r hr x hx
    rcases h.closed e r (hrest e r hr) x hx with hmapped | ⟨p, hp, hkey⟩
    · exact .inl (hturn.merges.maps.1 _ _ hmapped)
    · rw [← hsplit, List.mem_append] at hp
      rcases hp with hp | hp
      · rw [← hkey]
        exact .inl (hturn.merges.maps.2 ⟨x.1, p⟩ (SyncChunk.mem_items.mpr hp)
          (Entity.required_references hx).2)
      · exact .inr ⟨p, hp, hkey⟩
  · rw [howner]
    intro items st s₁ hmerged hid x hdistinct hmem hmapped
    have hall : (chunk.items ++ (items ++ [x])).Nodup := by
      refine List.Nodup.append (SyncChunk.items_nodup fun e => (List.nodup_append.mp (hnodup e)).1)
        hdistinct ?_
      intro y hy hy'
      exact (List.disjoint_of_nodup_append (hnodup y.1)) (SyncChunk.mem_items.mp hy) (hmem y hy')
    rw [← List.append_assoc] at hall
    refine h.taken _ st s₁ (hturn.merges.append hmerged) hid x hall (fun y hy => ?_) hmapped
    rw [List.append_assoc, List.mem_append] at hy
    exact hy.elim (hitems y) fun hy => hrest y.1 _ (hmem y hy)

end Turn

/-! ## A round -/

/-- No chunk has a row of a kind that an earlier chunk's rows refer to. -/
def ParentsFirst (chunks : List SyncChunk) : Prop :=
  ∀ pre chunk post, chunks = pre ++ chunk :: post → ∀ e, (chunk.rows e).getD [] ≠ [] →
    ∀ p ∈ e.references, delivered post p = []

/-- What the turns of a round have done to the progress of the pair. -/
structure Progressed (pair : SyncPair) (reader s : Store) (map : SyncMap) (chunks : List SyncChunk)
    (s' : Store) (map' : SyncMap) : Prop where
  ready : Ready pair reader s' map'
  window : s'.windowOf pair.auth.identityKey pair.reader.storageIdentityKey =
    s.windowOf pair.auth.identityKey pair.reader.storageIdentityKey
  received : ∀ e, Received (map.get e) (map'.get e) ((delivered chunks e).map e.updatedAt)
  split : ∀ e, delivered chunks e ++ pending pair reader s' map' e = pending pair reader s map e
  parentsFirst : ParentsFirst chunks
  length : chunks.length + remaining pair reader s' map' ≤ remaining pair reader s map

theorem Turns.progressed {chunks : List SyncChunk} (h : Turns pair reader s chunks s') {map : SyncMap}
    (hready : Ready pair reader s map) : ∃ map', Progressed pair reader s map chunks s' map' := by
  induction h generalizing map with
  | nil =>
    refine ⟨map, hready, rfl, fun e => Received.refl _, fun e => rfl, ?_, ?_⟩
    · intro pre chunk post heq
      simp at heq
    · simp
  | @cons s s₁ s' args chunk r chunks run more rest ih =>
    obtain ⟨merged, hturn, _, hdone⟩ := turn_of_run run hready.progress
    have hmore : chunk.isEmpty = false := by rw [← hdone, more]
    obtain ⟨_, hwindow, hsplit, hless⟩ := hturn.step hready.named hmore
    obtain ⟨map', hp⟩ := ih (hready.step hturn hmore)
    refine ⟨map', hp.ready, hp.window.trans hwindow, fun e => ?_, fun e => ?_, ?_, ?_⟩
    · rw [delivered_cons, List.map_append]
      exact (hturn.received e).trans (hp.received e)
    · rw [delivered_cons, List.append_assoc, hp.split, hsplit]
    · intro pre c post heq e hrows p hp'
      cases pre with
      | cons c₁ pre =>
        rw [List.cons_append, List.cons.injEq] at heq
        exact hp.parentsFirst pre c post heq.2 e hrows p hp'
      | nil =>
        rw [List.nil_append, List.cons.injEq] at heq
        obtain ⟨rfl, rfl⟩ := heq
        -- the chunk holds all rows that its own rows refer to, so none is left
        obtain ⟨before, after, hall, hmem⟩ := Entity.references_before hp'
        have hfull := (filled_of_answer hready.named hturn.answer).before hall hrows hmem
        have hnone : pending pair reader s₁ merged p = [] := by
          have h := hsplit p
          rw [hfull, Option.getD_some] at h
          exact List.append_right_eq_self.mp h
        have h := hp.split p
        rw [hnone] at h
        exact (List.append_eq_nil_iff.mp h).1
    · have := hp.length
      simp only [List.length_cons]
      omega

/-! ## The end of a round -/

/-- A request that repeats would repeat the counts. -/
theorem remaining_of_offsets {map map' : SyncMap}
    (h : (Entity.all.map fun e => ((map.get e).entityName, ((map.get e).count : Int))) =
      Entity.all.map fun e => ((map'.get e).entityName, ((map'.get e).count : Int)))
    (hwindow : s'.windowOf pair.auth.identityKey pair.reader.storageIdentityKey =
      s.windowOf pair.auth.identityKey pair.reader.storageIdentityKey) :
    remaining pair reader s' map' = remaining pair reader s map := by
  unfold remaining pending roundRows
  rw [hwindow]
  refine congrArg List.sum (List.map_congr_left fun e he => ?_)
  have hcount : (map'.get e).count = (map.get e).count := by
    have hpair := List.map_inj_left.mp h e he
    simp only [Prod.mk.injEq, Int.natCast_inj] at hpair
    exact hpair.2.symm
  rw [hcount]

/-- The loop ends with its last turn; it neither stalls nor runs out of turns when there are more turns
than rows. -/
theorem syncLoop_ends {fuel : Nat} {map : SyncMap} {p : SyncProgress} (h : Ready pair reader s map)
    (hfuel : remaining pair reader s map < fuel) (hp : p.noProgress = 0)
    (hprevious : ∀ r ∈ p.previous, r.2 ≠ (pair.request
      (s.windowOf pair.auth.identityKey pair.reader.storageIdentityKey) map).offsets) :
    ∃ chunks s₁ args chunk r counts s', Turns pair reader s chunks s₁ ∧
      (syncChunk pair reader).run Stmt.exec s₁ = (.ok (args, chunk, r), s') ∧ r.done = true ∧
      (syncLoop pair reader fuel p).run Stmt.exec s = (.ok counts, s') := by
  induction fuel generalizing s map p with
  | zero => omega
  | succ fuel ih =>
    unfold syncLoop
    obtain ⟨⟨args, chunk, r⟩, s₁, hrun, _⟩ := wp_total (wp_syncChunk_turn (.inl ⟨map, h⟩))
    rw [run_bind_of_ok hrun]
    obtain ⟨merged, hturn, hargs, hdone⟩ := turn_of_run hrun h.progress
    cases hend : r.done with
    | true =>
      refine ⟨[], s, args, chunk, r, (p.inserts + r.inserts, p.updates + r.updates), s₁, .nil, hrun, hend, ?_⟩
      simp only [hend, if_true]
      rfl
    | false =>
      have hmore : chunk.isEmpty = false := by rw [← hdone, hend]
      obtain ⟨_, hwindow, _, hless⟩ := hturn.step h.named hmore
      -- the request differs from the one before, so the guard stays at zero
      have hfresh : (p.previous == some (args.since, args.offsets)) = false := by
        rw [beq_eq_false_iff_ne]
        intro heq
        exact hprevious _ heq (by rw [hargs])
      have hkeep : ∀ b : Bool, (if b && (p.previous == some (args.since, args.offsets)) then
          p.noProgress + 1 else 0) = 0 := by
        intro b
        rw [hfresh, Bool.and_false, if_neg (by simp)]
      simp only [hend, Bool.false_eq_true, if_false, hkeep]
      rw [if_neg (by decide)]
      obtain ⟨chunks, s₂, args', chunk', r', counts, s', hturns, hlast⟩ := ih
        (p := { inserts := p.inserts + r.inserts, updates := p.updates + r.updates
                noProgress := 0, previous := some (args.since, args.offsets) })
        (h.step hturn hmore) (by omega) rfl (by
          intro key hkey heq
          rw [Option.mem_def, Option.some.injEq] at hkey
          subst hkey
          rw [hargs] at heq
          have := @remaining_of_offsets pair reader s s₁ map merged heq hwindow
          omega)
      exact ⟨chunk :: chunks, s₂, args', chunk', r', counts, s', .cons hrun hend hturns, hlast⟩

/-- The user record that a round sends. -/
def roundUser (pair : SyncPair) (reader s : Store) : Option User :=
  (reader.userOf pair.auth.identityKey).filter fun u =>
    !(s.windowOf pair.auth.identityKey pair.reader.storageIdentityKey).any (u.updatedAt ≤ ·)

/-- The progress of a pair as a completed round leaves it. -/
structure BetweenRounds (pair : SyncPair) (s : Store) (map : SyncMap) : Prop where
  progress : s.progressOf pair.auth.identityKey pair.reader.storageIdentityKey = .ok map
  named : Named map
  counts : ∀ e, (map.get e).count = 0

theorem get_resetCounts (m : SyncMap) (e : Entity) :
    m.resetCounts.get e = { m.get e with count := 0 } := by
  cases e <;> rfl

theorem withUser_eq (times : List Nat) (user : Option User) :
    withUser times.max? user = (times ++ (user.map (·.updatedAt)).toList).max? := by
  rw [max?_append_left]
  cases user with
  | none => cases h : times.max? <;> simp [withUser]
  | some u => cases h : times.max? <;> simp [withUser]

/-- The last turn closes the round: the counts start again and the window moves. -/
theorem Turn.last {map merged : SyncMap} {chunk : SyncChunk}
    (h : Turn pair reader s map chunk merged s') (hnamed : Named map) (hlast : chunk.isEmpty = true) :
    (∀ e, pending pair reader s map e = []) ∧
      ∃ map', BetweenRounds pair s' map' ∧
        (∀ e, (map'.get e).maxUpdatedAt = (map.get e).maxUpdatedAt) ∧
        s'.windowOf pair.auth.identityKey pair.reader.storageIdentityKey =
          ((Entity.all.filterMap fun e => (map'.get e).maxUpdatedAt) ++
            ((roundUser pair reader s).map (·.updatedAt)).toList).max?.or
              (s.windowOf pair.auth.identityKey pair.reader.storageIdentityKey) := by
  have hempty : ∀ e, chunk.rows e = some [] := by
    intro e
    unfold SyncChunk.isEmpty at hlast
    have he := List.all_eq_true.mp hlast e (Entity.mem_all e)
    cases hrows : chunk.rows e with
    | none =>
      rw [hrows] at he
      cases he
    | some rows =>
      rw [hrows, Option.any_some, List.isEmpty_iff] at he
      rw [he]
  have hmax : ∀ e, (merged.get e).maxUpdatedAt = (map.get e).maxUpdatedAt := by
    intro e
    have h := (h.received e).maxUpdatedAt
    rw [SyncChunk.times, hempty e] at h
    exact h.trans (Received.refl (map.get e)).maxUpdatedAt.symm
  have huser : chunk.user = roundUser pair reader s := by
    obtain ⟨v, _, hv, _, _, hfields⟩ := getSyncChunk_ok h.answer
    have hv : reader.userOf pair.auth.identityKey = some v := hv
    have hfield := congrArg SyncChunk.user hfields
    simp only [SyncPair.request] at hfield
    rw [hfield, roundUser, hv]
    by_cases hreached : (s.windowOf pair.auth.identityKey pair.reader.storageIdentityKey).any
        (v.updatedAt ≤ ·) = true
    · simp only [hreached, if_true, Option.filter_some, Bool.not_true, Bool.false_eq_true, if_false]
    · simp only [hreached, Bool.false_eq_true, if_false, Option.filter_some, Bool.not_false, if_true]
  refine ⟨fun e => (filled_of_answer hnamed h.answer).empty_iff.mp (fun e _ => hempty e) e (Entity.mem_all e),
    merged.resetCounts, ⟨?_, ?_, ?_⟩, ?_, ?_⟩
  · rw [h.next, if_pos hlast]
  · intro e
    rw [get_resetCounts]
    exact h.named hnamed e
  · intro e
    rw [get_resetCounts]
  · intro e
    rw [get_resetCounts]
    exact hmax e
  · rw [h.window, if_pos hlast, huser, SyncMap.maxUpdatedAt, withUser_eq]
    simp only [get_resetCounts]

/-- A round of a pair that is ready, wherever the one before it stopped: it reaches its end after at most
as many chunks as there are rows, and the chunks hold the rows that are not counted yet, each once and
parents first. Then the counts are zero, and the window is the largest of the times received so far and
that of the user record of this round. -/
theorem sync_round {map : SyncMap} (h : Ready pair reader s map) :
    (∀ e, (roundRows pair reader s e).Nodup) ∧
    (∀ u, reader.userOf pair.auth.identityKey = some u → ∀ e r, r ∈ reader.table e →
      reader.belongs u.userId e r = true →
      (∀ w ∈ s.windowOf pair.auth.identityKey pair.reader.storageIdentityKey, w ≤ e.updatedAt r) →
      r ∈ roundRows pair reader s e) ∧
    ∃ chunks s₁ args chunk r counts s' map', Turns pair reader s chunks s₁ ∧
      (syncChunk pair reader).run Stmt.exec s₁ = (.ok (args, chunk, r), s') ∧ r.done = true ∧
      (syncToWriter pair reader).run Stmt.exec s = (.ok counts, s') ∧
      chunks.length ≤ rowCount reader.toTables ∧ ParentsFirst chunks ∧
      (∀ e, delivered (chunks ++ [chunk]) e = (roundRows pair reader s e).drop (map.get e).count) ∧
      BetweenRounds pair s' map' ∧
      (∀ e, (map'.get e).maxUpdatedAt = ((map.get e).maxUpdatedAt.toList ++
        ((roundRows pair reader s e).drop (map.get e).count).map e.updatedAt).max?) ∧
      s'.windowOf pair.auth.identityKey pair.reader.storageIdentityKey =
        ((Entity.all.filterMap fun e => (map'.get e).maxUpdatedAt) ++
          ((roundUser pair reader s).map (·.updatedAt)).toList).max?.or
            (s.windowOf pair.auth.identityKey pair.reader.storageIdentityKey) := by
  refine ⟨roundRows_nodup, ?_, ?_⟩
  · intro u hu e r hmem hbelongs hsince
    simp only [roundRows, sentRows, hu]
    exact mem_changedRows.mpr ⟨hmem, hbelongs, changedSince_of_le hsince⟩
  · have hremaining : remaining pair reader s map ≤ rowCount reader.toTables := by
      unfold remaining rowCount pending
      refine List.sum_le_sum fun e _ => ?_
      rw [List.length_drop]
      have := @roundRows_length_le pair reader s e
      omega
    have hfuel : remaining pair reader s map < rowCount reader.toTables + 1 := by omega
    obtain ⟨chunks, s₁, args, chunk, r, counts, s', hturns, hlast, hdone, hrun⟩ :=
      syncLoop_ends (p := {}) h hfuel rfl nofun
    obtain ⟨map₁, hp⟩ := hturns.progressed h
    obtain ⟨merged, hturn, _, hempty⟩ := turn_of_run hlast hp.ready.progress
    have hend : chunk.isEmpty = true := by rw [← hempty, hdone]
    obtain ⟨hnone, map', hbetween, hmax, hwindow⟩ := hturn.last hp.ready.named hend
    have hsent : ∀ e, delivered chunks e = pending pair reader s map e := by
      intro e
      rw [← hp.split e, hnone e, List.append_nil]
    have huser : roundUser pair reader s₁ = roundUser pair reader s := by
      simp only [roundUser, hp.window]
    have hlength := hp.length
    refine ⟨chunks, s₁, args, chunk, r, counts, s', map', hturns, hlast, hdone, hrun, by omega,
      hp.parentsFirst, fun e => ?_, hbetween, fun e => ?_, ?_⟩
    · have hrows := (filled_of_answer hp.ready.named hturn.answer).isPrefix (Entity.mem_all e)
      rw [hnone e, List.prefix_nil] at hrows
      rw [delivered, List.flatMap_append, List.flatMap_singleton, hrows, List.append_nil]
      exact hsent e
    · rw [hmax, (hp.received e).maxUpdatedAt, hsent]
      rfl
    · rw [hwindow, hp.window, huser]

/-! ## Two rounds, and rounds that fail -/

/-- A pair with small chunks. -/
def samplePair : SyncPair :=
  { size := fun _ _ => 100, limits := { maxRoughSize := 150, maxItems := 1 }
    auth := { identityKey := "alice" }
    writer := { storageIdentityKey := "backup", storageName := "" }
    reader := { storageIdentityKey := "active", storageName := "" }, refNum := "" }

/-- A store with a basket, whose user has chosen the store five seconds later. -/
def sampleReader : Store :=
  let s₁ := (Prog.run Stmt.exec (do
    let (user, _) ← findOrInsertUser "alice"
    findOrInsertOutputBasket user.userId "savings") (Store.empty.tick 1700000000000)).2
  (Prog.run Stmt.exec (Storage.setActive { identityKey := "alice" } "active")
    (s₁.tick 1700000005000)).2

def sampleRound (writer : Store) : Store :=
  ((syncToWriter samplePair sampleReader).run Stmt.exec writer).2

theorem exec_insertOutputBasket {b : OutputBasket} {u : User} (hu : u ∈ s.users)
    (huser : b.userId = u.userId) (hnew : ∀ r ∈ s.outputBaskets, (r.name, r.userId) ≠ (b.name, b.userId)) :
    ∃ a, (Stmt.insertOutputBasket b).exec s = .ok a := by
  have hforeign : ((Stmt.insertOutputBasket b).apply s.toTables).2.ForeignKeys := by
    refine { s.foreign with
      basketUser := fun x hx => ?_
      outputBasket := s.foreign.outputBasket.insert_target fun _ => rfl }
    rcases List.mem_append.mp hx with hx | hx
    · exact s.foreign.basketUser x hx
    · rw [List.mem_singleton.mp hx]
      exact ⟨u, hu, huser.symm⟩
  have hkeys : ((Stmt.insertOutputBasket b).apply s.toTables).2.UniqueKeys :=
    { s.unique with outputBaskets := s.unique.outputBaskets.insert (fun _ => rfl) hnew }
  exact ⟨_, exec_of_constraints hforeign hkeys⟩

/-- The basket is all that the first round has to send. -/
theorem sample_pending : ∃ b, ∀ x : Σ e : Entity, e.Row,
    x.2 ∈ pending samplePair sampleReader Store.empty {} x.1 ↔ x = ⟨.outputBasket, b⟩ := by
  have hone : (pending samplePair sampleReader Store.empty {} .outputBasket).length = 1 := by
    decide +kernel
  obtain ⟨b, hb⟩ := List.length_eq_one_iff.mp hone
  refine ⟨b, fun x => ?_⟩
  obtain ⟨e, r⟩ := x
  by_cases he : e = .outputBasket
  · subst he
    rw [hb, List.mem_singleton]
    simp
  · have hnone : (pending samplePair sampleReader Store.empty {} e).length = 0 := by
      cases e <;> first | exact absurd rfl he | decide +kernel
    rw [List.length_eq_zero_iff.mp hnone]
    simp [he]

/-- An empty store takes the basket. -/
theorem sample_ready : Ready samplePair sampleReader Store.empty {} := by
  obtain ⟨b, hb⟩ := sample_pending
  refine ⟨rfl, fun e => by cases e <;> rfl, ⟨?_, ?_, ?_⟩, by decide, by decide +kernel, ?_, ?_⟩
  · rintro _ ⟨⟩
  · rintro _ ⟨⟩
  · rintro _ _ ⟨⟩
  · intro e r hr x hx
    obtain ⟨rfl, _⟩ := Sigma.mk.inj ((hb ⟨e, r⟩).mp hr)
    cases hx
  · intro items st s₁ hmerged hid x hnodup hmem _
    have hall : ∀ y ∈ items ++ [x], y = ⟨.outputBasket, b⟩ := fun y hy => (hb y).mp (hmem y hy)
    obtain rfl := hall x (by simp)
    cases items with
    | cons y items =>
      rw [hall y (by simp)] at hnodup
      simp at hnodup
    | nil =>
      obtain ⟨u, hu, hid⟩ := Option.map_eq_some_iff.mp hid
      generalize hmap : st.map = map at hmerged
      cases hmerged with
      | nil same =>
        have hrows : s₁.outputBaskets = .empty := same .outputBasket
        obtain ⟨⟨id, s₂⟩, hexec⟩ := @exec_insertOutputBasket s₁
          { (b : OutputBasket) with userId := Store.empty.userIdOf samplePair.auth.identityKey } u
          (userOf_some hu).1 hid.symm (by rw [hrows]; rintro _ ⟨⟩)
        have hnone : (s₁.table .outputBasket).first (fun l : OutputBasket =>
            l.userId == Store.empty.userIdOf samplePair.auth.identityKey && l.name == b.name) = none := by
          rw [same]
          rfl
        show ((mergeWith .outputBasket st (st.map.received .outputBasket b) _ b).run Stmt.exec s₁).1.isOk
        unfold mergeWith
        rw [run_bind_of_ok (run_ask _ s₁), hnone]
        simp only
        rw [run_bind_of_ok (run_exec_ok hexec), hmap]
        rfl

/-- The first round into an empty store sends the basket and ends. -/
theorem sync_round_first :
    ∃ chunks s₁ args chunk r counts s' map', Turns samplePair sampleReader Store.empty chunks s₁ ∧
      (syncChunk samplePair sampleReader).run Stmt.exec s₁ = (.ok (args, chunk, r), s') ∧
      r.done = true ∧
      (syncToWriter samplePair sampleReader).run Stmt.exec Store.empty = (.ok counts, s') ∧
      (∀ e, delivered (chunks ++ [chunk]) e = roundRows samplePair sampleReader Store.empty e) ∧
      BetweenRounds samplePair s' map' := by
  obtain ⟨_, _, chunks, s₁, args, chunk, r, counts, s', map', hturns, hlast, hdone, hrun, _, _, hsent,
    hbetween, _⟩ := @sync_round samplePair sampleReader Store.empty {} sample_ready
  refine ⟨chunks, s₁, args, chunk, r, counts, s', map', hturns, hlast, hdone, hrun, fun e => ?_, hbetween⟩
  rw [hsent]
  cases e <;> rfl

/-- A round that stopped after its first chunk. -/
def sampleInterrupted : Store :=
  ((syncChunk samplePair sampleReader).run Stmt.exec Store.empty).2

/-- A store in which a user has a transaction. -/
def storeWith (identityKey : String) : Store :=
  (Prog.run Stmt.exec (do
    let (user, _) ← findOrInsertUser identityKey
    let now ← utcNow
    Storage.exec (.insertTransaction
      { createdAt := now, updatedAt := now, userId := user.userId, provenTxId := none
        status := .completed, reference := "r", isOutgoing := true, satoshis := 0
        description := "", version := none, lockTime := none, txid := none, inputBeef := none
        rawTx := none })) (Store.empty.tick 1700000000000)).2

/-- A label of one user on the transaction of another one. -/
def sharedReader : Store :=
  (Prog.run Stmt.exec (do
    let (user, _) ← findOrInsertUser "alice"
    let label ← findOrInsertTxLabel user.userId "rent"
    let now ← utcNow
    Storage.exec (.insertTxLabelMap
      { createdAt := now, updatedAt := now, txLabelId := label.txLabelId, transactionId := 1
        isDeleted := false })) (storeWith "bob")).2

/-- The window goes back to the time of the basket, since the second round does not send the user
record. A round that goes on after a chunk does not send its rows again. A round fails whose rows refer
to a row that is not sent, and one into a store that refuses a row, here since the reference of the
transaction is another user's, and one for an id that is not the user's. -/
theorem rounds_fall_short :
    (sampleRound Store.empty).windowOf "alice" "active" = some 1700000005000 ∧
      (sampleRound (sampleRound Store.empty)).windowOf "alice" "active" = some 1700000000000 ∧
      (roundRows samplePair sampleReader sampleInterrupted .outputBasket).length = 1 ∧
      (((syncChunk samplePair sampleReader).run Stmt.exec sampleInterrupted).1.toOption.map fun r =>
        (r.2.1.isEmpty, r.2.2.done)) = some (true, true) ∧
      ((syncToWriter samplePair sharedReader).run Stmt.exec Store.empty).1.isOk = false ∧
      ((syncToWriter samplePair (storeWith "alice")).run Stmt.exec (storeWith "bob")).1.isOk = false ∧
      ((syncToWriter { samplePair with auth := { identityKey := "alice", userId := some 7 } }
        sampleReader).run Stmt.exec Store.empty).1.isOk = false := by
  decide +kernel

end WalletToolbox.Manager
