import WalletToolbox.Services.ChaintracksChainTracker

/-! # Root validation through the cache

The cache always stays within its capacity and its `insert` always returns.
A root in the cache is the backend's own as long as the call that put it there did so with a header
that was still active: a reorganization between the two backend reads of one call is not noticed,
and pins the old root. -/

namespace WalletToolbox.ChainTracker

open WalletToolbox.Lib

/-! ## The cache keeps its order and its bound -/

/-- The insertion order lists exactly the keys, each once, and there are at most as many as the
capacity. -/
structure RootCache.WellFormed (c : RootCache) : Prop where
  nodup : c.insertionOrder.Nodup
  keys : ∀ height, height ∈ c.insertionOrder ↔ height ∈ c.roots
  bound : c.roots.entries.length ≤ rootCacheCapacity

theorem RootCache.wellFormed_empty : ({} : RootCache).WellFormed where
  nodup := List.nodup_nil
  keys := by simp
  bound := Nat.zero_le _

theorem entries_eq_nil {roots : AList fun _ : Nat => String} (h : ∀ height, height ∉ roots) :
    roots.entries = [] := by
  cases hentries : roots.entries with
  | nil => rfl
  | cons entry rest =>
    have hmem : entry.1 ∈ roots := by
      rw [AList.mem_keys]
      simp [AList.keys, List.keys, hentries]
    exact absurd hmem (h entry.1)

/-- The eviction loop ends with room for one more root, and keeps the order in step. -/
theorem RootCache.evict_spec {order : List Nat} {roots : AList fun _ : Nat => String}
    (hnodup : order.Nodup) (hkeys : ∀ height, height ∈ order ↔ height ∈ roots) :
    ∃ kept, evict roots order = some kept ∧ kept.WellFormed ∧
      kept.roots.entries.length < rootCacheCapacity ∧
      ∀ height root, kept.roots.lookup height = some root → roots.lookup height = some root := by
  induction order generalizing roots with
  | nil =>
    have hempty : roots.entries = [] :=
      entries_eq_nil fun height hmem => List.not_mem_nil ((hkeys height).mpr hmem)
    have hroom : roots.entries.length < rootCacheCapacity := by
      rw [hempty]
      decide
    exact ⟨⟨roots, []⟩, if_neg (Nat.not_le.mpr hroom), ⟨hnodup, hkeys, hroom.le⟩, hroom,
      fun _ _ h => h⟩
  | cons oldest rest ih =>
    by_cases hfull : rootCacheCapacity ≤ roots.entries.length
    · have hkeys' : ∀ height, height ∈ rest ↔ height ∈ roots.erase oldest := by
        intro height
        rw [AList.mem_erase, ← hkeys height, List.mem_cons]
        constructor
        · intro hmem
          exact ⟨fun heq => (List.nodup_cons.mp hnodup).1 (heq ▸ hmem), .inr hmem⟩
        · rintro ⟨hne, heq | hmem⟩
          · exact absurd heq hne
          · exact hmem
      obtain ⟨kept, heq, hwf, hroom, hkept⟩ := ih (List.nodup_cons.mp hnodup).2 hkeys'
      refine ⟨kept, (if_pos hfull).trans heq, hwf, hroom, fun height root h => ?_⟩
      have hmem : height ∈ roots.erase oldest := by
        rw [← AList.lookup_isSome, hkept height root h]
        rfl
      rw [← AList.lookup_erase_ne (AList.mem_erase.mp hmem).1]
      exact hkept height root h
    · have hroom : roots.entries.length < rootCacheCapacity := Nat.not_le.mp hfull
      exact ⟨⟨roots, oldest :: rest⟩, if_neg hfull, ⟨hnodup, hkeys, hroom.le⟩, hroom,
        fun _ _ h => h⟩

/-- `insert` returns, keeps the cache well formed, and the cache then holds nothing but the new
root and roots that it held before. -/
theorem RootCache.insert_spec {c : RootCache} (h : c.WellFormed) (height : Nat) (root : String) :
    ∃ c', c.insert height root = some c' ∧ c'.WellFormed ∧
      ∀ height' root', c'.get height' = some root' →
        (height' = height ∧ root' = root) ∨ c.get height' = some root' := by
  have hget : ∀ (roots : AList fun _ : Nat => String) height' root',
      (roots.insert height root).lookup height' = some root' →
        (height' = height ∧ root' = root) ∨ roots.lookup height' = some root' := by
    intro roots height' root' hlookup
    by_cases heq : height' = height
    · subst heq
      rw [AList.lookup_insert, Option.some_inj] at hlookup
      exact .inl ⟨rfl, hlookup.symm⟩
    · rw [AList.lookup_insert_ne heq] at hlookup
      exact .inr hlookup
  by_cases hmem : height ∈ c.roots
  · refine ⟨_, if_pos hmem, ⟨h.nodup, fun height' => ?_, ?_⟩, fun _ _ => hget _ _ _⟩
    · rw [AList.mem_insert, h.keys]
      constructor
      · exact .inr
      · rintro (rfl | h')
        · exact hmem
        · exact h'
    · have hlen : (c.roots.insert height root).keys.length = c.roots.keys.length := by
        rw [AList.keys_insert, List.length_cons, List.length_erase_of_mem (AList.mem_keys.mp hmem)]
        have := List.length_pos_of_mem (AList.mem_keys.mp hmem)
        omega
      simp only [AList.keys, List.keys, List.length_map] at hlen
      exact hlen ▸ h.bound
  · obtain ⟨kept, heq, hwf, hroom, hkept⟩ := evict_spec h.nodup h.keys
    have hnew : height ∉ kept.roots := by
      intro hin
      obtain ⟨r, hr⟩ := Option.isSome_iff_exists.mp (AList.lookup_isSome.mpr hin)
      exact hmem (AList.lookup_isSome.mp (by rw [hkept height r hr]; rfl))
    refine ⟨_, (if_neg hmem).trans (by rw [heq]; rfl), ⟨?_, fun height' => ?_, ?_⟩, ?_⟩
    · refine List.nodup_append.mpr ⟨hwf.nodup, List.nodup_singleton _, ?_⟩
      rintro a ha b hb rfl
      exact hnew ((hwf.keys _).mp (List.mem_singleton.mp hb ▸ ha))
    · rw [AList.mem_insert, List.mem_append, List.mem_singleton, hwf.keys, or_comm]
    · rw [AList.entries_insert_of_notMem hnew]
      exact hroom
    · intro height' root' hlookup
      exact (hget _ _ _ hlookup).imp_right (hkept height' root')

/-- What one step of a call does to the cache. -/
theorem State.proceed_cache (s : State) (i : Nat) (c : Call) (fault : Option String) :
    (s.proceed i c fault).cache = s.cache ∨
      ∃ height root, s.cache.insert height root = some (s.proceed i c fault).cache := by
  cases hphase : c.phase with
  | lookup =>
    simp only [State.proceed, hphase]
    split <;> exact .inl rfl
  | fetch =>
    simp only [State.proceed, hphase]
    split
    · exact .inl rfl
    · split <;> exact .inl rfl
  | tip header =>
    simp only [State.proceed, hphase]
    split
    · exact .inl rfl
    · split <;> exact .inl rfl
  | store header =>
    simp only [State.proceed, hphase]
    split
    · exact .inl rfl
    · rename_i cache hinsert
      exact .inr ⟨_, _, hinsert⟩

theorem Action.next_wellFormed {s : State} (a : Action) (h : s.cache.WellFormed) :
    (a.next s).cache.WellFormed := by
  cases a with
  | begin root height => exact h
  | proceed i fault =>
    simp only [Action.next]
    split
    · rename_i c _
      rcases s.proceed_cache i c fault with heq | ⟨height, root, hinsert⟩
      · exact heq ▸ h
      · obtain ⟨cache, hcache, hwf, _⟩ := RootCache.insert_spec h height root
        rw [hinsert, Option.some_inj] at hcache
        exact hcache ▸ hwf
    · exact h
  | reorganize depth branch => exact h

/-- In every run the cache is well formed. -/
theorem reaches_wellFormed {chain : Chain} {ok : State → Action → Prop} {s : State}
    (h : (tracker chain).Reaches ok s) : s.cache.WellFormed := by
  refine h.inv (I := fun s => s.cache.WellFormed) RootCache.wellFormed_empty ?_
  intro s a hwf _ _
  exact a.next_wellFormed hwf

/-! ## A settled root stays -/

/-- The backend's root for a height, deep enough to count as settled. -/
def Chain.Settles (c : Chain) (height : Nat) (root : String) : Prop :=
  settled height c.currentHeight = true ∧ c.rootMatches root height = true

/-- What a call knows: where it stands between its reads of the backend. -/
def Call.Informed (chain : Chain) (c : Call) : Prop :=
  chain ∈ c.during ∧
    match c.phase with
    | .lookup | .fetch => True
    | .tip header => ∃ seen ∈ c.during, seen.findHeaderForHeight c.height = some header
    | .store header =>
      (∃ seen ∈ c.during, seen.findHeaderForHeight c.height = some header) ∧
        chain.Settles c.height header.merkleRoot

/-- The verdict is the comparison with a chain that the backend held during the call. -/
def Returned.Right (r : Returned) : Prop :=
  ∀ v, r.result = .ok v → ∃ chain ∈ r.during, v = chain.rootMatches r.root r.height

instance (r : Returned) : Decidable r.Right :=
  match h : r.result with
  | .error _ => isTrue fun v hv => nomatch h.symm.trans hv
  | .ok v => decidable_of_iff (∃ chain ∈ r.during, v = chain.rootMatches r.root r.height) <| by
    constructor
    · intro hright w hw
      cases h.symm.trans hw
      exact hright
    · intro hright
      exact hright v h

/-- A call that is about to read the tip height: if its own height is settled by then, the root that
it has read is still the backend's. -/
def Call.undisturbed (chain : Chain) (c : Call) : Bool :=
  match c.phase with
  | .tip header =>
    !settled c.height chain.currentHeight || chain.rootMatches header.merkleRoot c.height
  | _ => true

/-- A reorganization leaves a chain that is no shorter, and a call that reads the tip height is
undisturbed. -/
def Undisturbed : State → Action → Prop
  | _, .reorganize depth branch => depth ≤ branch.length
  | s, .proceed i _ => ∀ c ∈ s.calls[i]?, c.undisturbed s.chain = true
  | _, .begin _ _ => True

instance : ∀ (s : State) (a : Action), Decidable (Undisturbed s a)
  | _, .reorganize depth branch => inferInstanceAs (Decidable (depth ≤ branch.length))
  | s, .proceed i _ => inferInstanceAs (Decidable (∀ c ∈ s.calls[i]?, c.undisturbed s.chain = true))
  | _, .begin _ _ => isTrue trivial

theorem Chain.rootMatches_of_find {c : Chain} {height : Nat} {header : BlockHeader}
    (h : c.findHeaderForHeight height = some header) (root : String) :
    c.rootMatches root height = (header.merkleRoot == root) := by
  simp only [Chain.rootMatches, h]

/-- The backend's root for a height decides every comparison at it. -/
theorem Chain.rootMatches_eq {c : Chain} {height : Nat} {held : String}
    (h : c.rootMatches held height = true) (root : String) :
    c.rootMatches root height = (held == root) := by
  simp only [Chain.rootMatches] at h ⊢
  split at h
  · cases h
  · rw [beq_iff_eq.mp h]

theorem Chain.settles_reorganize {c : Chain} {height depth : Nat} {root : String}
    {branch : List BlockHeader} (h : c.Settles height root) (hdepth : depth ≤ reorgSafeDepth)
    (hbranch : depth ≤ branch.length) : (c.reorganize depth branch).Settles height root := by
  obtain ⟨hsettled, hroot⟩ := h
  have hdeep : height < c.length - 1 - reorgSafeDepth := of_decide_eq_true hsettled
  have hlen : (c.reorganize depth branch).length = c.length - depth + branch.length := by
    simp only [Chain.reorganize, List.length_append, List.length_take]
    omega
  have hfind : (c.reorganize depth branch).findHeaderForHeight height =
      c.findHeaderForHeight height := by
    have hlow : height < (c.take (c.length - depth)).length := by
      simp only [List.length_take]
      omega
    simp only [Chain.findHeaderForHeight, Chain.reorganize]
    rw [List.getElem?_append_left hlow, List.getElem?_take, if_pos (by omega)]
  constructor
  · apply decide_eq_true
    rw [Chain.currentHeight, hlen]
    omega
  · simpa only [Chain.rootMatches, hfind] using hroot

/-! ## Every step keeps the cache right -/

/-- What holds as long as no call is disturbed. -/
structure State.Verified (s : State) : Prop where
  wellFormed : s.cache.WellFormed
  cached : ∀ height root, s.cache.get height = some root → s.chain.Settles height root
  calls : ∀ c ∈ s.calls, c.Informed s.chain
  returned : ∀ r ∈ s.returned, r.Right

theorem State.Verified.continue {s : State} (h : s.Verified) {i : Nat} {c : Call} {phase : Phase}
    (hc : Call.Informed s.chain { c with phase := phase }) : (s.continue i c phase).Verified where
  wellFormed := h.wellFormed
  cached := h.cached
  calls := by
    intro c' hmem
    rcases List.mem_or_eq_of_mem_set hmem with hmem | rfl
    · exact h.calls c' hmem
    · exact hc
  returned := h.returned

theorem State.Verified.finish {s : State} (h : s.Verified) {i : Nat} {c : Call}
    {result : Except String Bool} (hc : (c.return result).Right) : (s.finish i c result).Verified where
  wellFormed := h.wellFormed
  cached := h.cached
  calls := fun c' hmem => h.calls c' (List.mem_of_mem_eraseIdx hmem)
  returned := by
    intro r hmem
    rcases List.mem_append.mp hmem with hmem | hmem
    · exact h.returned r hmem
    · exact List.mem_singleton.mp hmem ▸ hc

theorem Call.right_error (c : Call) (e : String) : (c.return (.error e)).Right :=
  fun _ h => nomatch h

/-- A verdict on a header is right when some chain of the call held it. -/
theorem Call.right_of_seen {c : Call} {header : BlockHeader}
    (h : ∃ seen ∈ c.during, seen.findHeaderForHeight c.height = some header) :
    (c.return (.ok (header.merkleRoot == c.root))).Right := by
  rintro v ⟨⟩
  obtain ⟨seen, hmem, hfind⟩ := h
  exact ⟨seen, hmem, (Chain.rootMatches_of_find hfind c.root).symm⟩

theorem State.Verified.insert {s : State} (h : s.Verified) {height : Nat} {root : String}
    {cache : RootCache} (hinsert : s.cache.insert height root = some cache)
    (hroot : s.chain.Settles height root) : State.Verified { s with cache } := by
  obtain ⟨cache', heq, hwf, hget⟩ := RootCache.insert_spec h.wellFormed height root
  rw [hinsert, Option.some_inj] at heq
  subst heq
  refine ⟨hwf, fun height' root' hlookup => ?_, h.calls, h.returned⟩
  rcases hget height' root' hlookup with ⟨rfl, rfl⟩ | hold
  · exact hroot
  · exact h.cached height' root' hold

theorem State.Verified.proceed {s : State} (h : s.Verified) {i : Nat} {fault : Option String}
    (hok : Undisturbed s (.proceed i fault)) {c : Call} (hc : s.calls[i]? = some c) :
    (s.proceed i c fault).Verified := by
  obtain ⟨hnow, hknows⟩ := h.calls c (List.mem_of_getElem? hc)
  cases hphase : c.phase with
  | lookup =>
    simp only [State.proceed, hphase]
    split
    · rename_i cachedRoot hcached
      refine h.finish fun v hv => ?_
      cases hv
      exact ⟨s.chain, hnow, (Chain.rootMatches_eq (h.cached _ _ hcached).2 c.root).symm⟩
    · exact h.continue ⟨hnow, trivial⟩
  | fetch =>
    simp only [State.proceed, hphase]
    split
    · exact h.finish (c.right_error _)
    · split
      · rename_i hnone
        refine h.finish fun v hv => ?_
        cases hv
        exact ⟨s.chain, hnow, by simp only [Call.return, Chain.rootMatches, hnone]⟩
      · rename_i header hfind
        exact h.continue ⟨hnow, s.chain, hnow, hfind⟩
  | tip header =>
    simp only [hphase] at hknows
    simp only [State.proceed, hphase]
    split
    · exact h.finish (c.right_error _)
    · split
      · rename_i hsettled
        have hroot := hok c hc
        simp only [Call.undisturbed, hphase, hsettled, Bool.not_true, Bool.false_or] at hroot
        exact h.continue ⟨hnow, hknows, hsettled, hroot⟩
      · exact h.finish (Call.right_of_seen hknows)
  | store header =>
    simp only [hphase] at hknows
    simp only [State.proceed, hphase]
    split
    · exact h
    · rename_i cache hinsert
      exact (h.insert hinsert hknows.2).finish (Call.right_of_seen hknows.1)

theorem Call.informed_reorganize {chain : Chain} {c : Call} {depth : Nat}
    {branch : List BlockHeader} (h : c.Informed chain) (hdepth : depth ≤ reorgSafeDepth)
    (hbranch : depth ≤ branch.length) :
    Call.Informed (chain.reorganize depth branch)
      { c with during := c.during ++ [chain.reorganize depth branch] } := by
  obtain ⟨-, hknows⟩ := h
  refine ⟨List.mem_append_right _ (List.mem_singleton_self _), ?_⟩
  cases hphase : c.phase with
  | lookup => trivial
  | fetch => trivial
  | tip header =>
    simp only [hphase] at hknows
    obtain ⟨seen, hmem, hfind⟩ := hknows
    exact ⟨seen, List.mem_append_left _ hmem, hfind⟩
  | store header =>
    simp only [hphase] at hknows
    obtain ⟨⟨seen, hmem, hfind⟩, hsettles⟩ := hknows
    exact ⟨⟨seen, List.mem_append_left _ hmem, hfind⟩,
      Chain.settles_reorganize hsettles hdepth hbranch⟩

theorem State.Verified.next {s : State} (h : s.Verified) {a : Action} (henabled : a.Enabled s)
    (hok : Undisturbed s a) : (a.next s).Verified := by
  cases a with
  | begin root height =>
    refine ⟨h.wellFormed, h.cached, fun c hmem => ?_, h.returned⟩
    rcases List.mem_append.mp hmem with hmem | hmem
    · exact h.calls c hmem
    · rw [List.mem_singleton.mp hmem]
      exact ⟨List.mem_singleton_self _, trivial⟩
  | proceed i fault =>
    simp only [Action.next]
    split
    · rename_i c hc
      exact h.proceed hok hc
    · exact h
  | reorganize depth branch =>
    refine ⟨h.wellFormed, fun height root hget => ?_, fun c hmem => ?_, h.returned⟩
    · exact Chain.settles_reorganize (h.cached height root hget) henabled hok
    · obtain ⟨c', hmem', rfl⟩ := List.mem_map.mp hmem
      exact Call.informed_reorganize (h.calls c' hmem') henabled hok

theorem reaches_verified {chain : Chain} {s : State} (h : (tracker chain).Reaches Undisturbed s) :
    s.Verified := by
  refine h.inv ⟨RootCache.wellFormed_empty, ?_, ?_, ?_⟩ fun _ _ hs henabled hok => hs.next henabled hok
  · intro height root hget
    cases hget
  · intro c hmem
    cases hmem
  · intro r hmem
    cases hmem

/-- In every run the cache is a duplicate-free list of at most 4096 keys whose `insert` returns; and
in every run that is undisturbed every verdict is the comparison with the backend's root at some
moment of the call. -/
theorem root_validation (chain : Chain) (s : State) :
    ((tracker chain).Reaches (fun _ _ => True) s →
      s.cache.WellFormed ∧ ∀ height root, (s.cache.insert height root).isSome) ∧
    ((tracker chain).Reaches Undisturbed s → ∀ r ∈ s.returned, r.Right) := by
  constructor
  · intro h
    refine ⟨reaches_wellFormed h, fun height root => ?_⟩
    obtain ⟨cache, hinsert, _⟩ := RootCache.insert_spec (reaches_wellFormed h) height root
    rw [hinsert]
    rfl
  · intro h
    exact (reaches_verified h).returned

/-! ## A reorganization between the two reads -/

def sampleHeader (height : Nat) (merkleRoot : String) : BlockHeader where
  height := height
  hash := "hash"
  merkleRoot := merkleRoot

/-- Two headers; the root at height one is `root-a`. -/
def sampleChain : Chain := [sampleHeader 0 "root-0", sampleHeader 1 "root-a"]

/-- A branch from height one on, with `root-b` there and long enough to settle it. -/
def sampleBranch : List BlockHeader :=
  sampleHeader 1 "root-b" :: (List.range 401).map fun n => sampleHeader (n + 2) "root"

/-- A call reads the header at height one; the chain moves before it reads the tip; a second call
asks for the root that is then active. -/
def disturbedRun : List Action :=
  [.begin "root-a" 1, .proceed 0 none, .proceed 0 none, .reorganize 1 sampleBranch,
    .proceed 0 none, .proceed 0 none, .begin "root-b" 1, .proceed 0 none]

/-- The same two calls with the chain moving before the first of them. -/
def undisturbedRun : List Action :=
  [.reorganize 1 sampleBranch, .begin "root-b" 1, .proceed 0 none, .proceed 0 none,
    .proceed 0 none, .proceed 0 none, .begin "root-b" 1, .proceed 0 none]

theorem root_validation_undisturbed :
    ∃ s, (tracker sampleChain).Reaches Undisturbed s ∧ s.returned.length = 2 ∧
      ∀ r ∈ s.returned, r.Right := by
  have hrun : (tracker sampleChain).Reaches Undisturbed
      ((tracker sampleChain).after { chain := sampleChain } undisturbedRun) :=
    System.Reaches.after .init (by decide +kernel)
  exact ⟨_, hrun, by decide +kernel, (root_validation sampleChain _).2 hrun⟩

/-- The first call pins `root-a`, and the second is told that `root-b` is wrong although the backend
holds it throughout the call. The chain only gets longer. -/
theorem stale_root_pinned :
    ∃ s, (tracker sampleChain).Reaches (fun _ _ => True) s ∧ ∃ r ∈ s.returned, ¬ r.Right :=
  ⟨(tracker sampleChain).after { chain := sampleChain } disturbedRun,
    System.Reaches.after .init (by decide +kernel), by decide +kernel⟩

end WalletToolbox.ChainTracker
