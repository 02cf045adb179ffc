import WalletToolbox.Chaintracks.Served
import WalletToolbox.Laws.Indexes

/-! # Migration

Every call of MemoryStorage keeps the height index sound: what it has at a height is an active
header of that height. It does not keep it complete, as a pruned fork takes the entry of its height
along.
On a chain of active headers the migration archives the oldest ones, and a look-up by height sees
the same header before and after when it saw the headers of the chain before. -/

namespace WalletToolbox.Chaintracks

open WalletToolbox.Lib

namespace Inner

variable {s : Inner} {id : Nat} {h header : LiveBlockHeader}

/-! ## What every call keeps -/

/-- Ids are given in order and stand in the headers, and an entry of the height index is for an
active header of that height. -/
structure Tidy (s : Inner) : Prop where
  fresh : ∀ {id h}, s.headers.lookup id = some h → id < s.nextId
  ids : ∀ {id h}, s.headers.lookup id = some h → h.headerId = some id
  height : ∀ {k id}, s.heightToId.lookup k = some id →
    ∃ h, s.headers.lookup id = some h ∧ h.isActive = true ∧ h.height = k

theorem tidy_empty : ({} : Inner).Tidy where
  fresh hlookup := by simp at hlookup
  ids hlookup := by simp at hlookup
  height hlookup := by simp at hlookup

theorem heightToId_unmarkTip (s : Inner) : s.unmarkTip.heightToId = s.heightToId := by
  rw [unmarkTip]
  split
  · rfl
  · split <;> rfl

/-- What the old tip is without its mark. -/
theorem lookup_of_unmarkTip (hlookup : s.unmarkTip.headers.lookup id = some h) :
    ∃ h', s.headers.lookup id = some h' ∧ h'.headerId = h.headerId ∧ h'.isActive = h.isActive ∧
      h'.height = h.height := by
  rw [lookup_unmarkTip] at hlookup
  split at hlookup
  · obtain ⟨h', hlookup', rfl⟩ := Option.map_eq_some_iff.mp hlookup
    exact ⟨h', hlookup', rfl, rfl, rfl⟩
  · exact ⟨h, hlookup, rfl, rfl, rfl⟩

theorem Tidy.unmarkTip (ht : s.Tidy) : s.unmarkTip.Tidy where
  fresh hid := by
    obtain ⟨h', hlookup, -⟩ := lookup_of_unmarkTip hid
    rw [(unmarkTip_rest s).2.1]
    exact ht.fresh hlookup
  ids hid := by
    obtain ⟨h', hlookup, heq, -⟩ := lookup_of_unmarkTip hid
    rw [← heq]
    exact ht.ids hlookup
  height {k id} hid := by
    rw [heightToId_unmarkTip] at hid
    obtain ⟨h, hlookup, hactive, hheight⟩ := ht.height hid
    rw [lookup_unmarkTip, hlookup]
    split
    · exact ⟨_, rfl, hactive, hheight⟩
    · exact ⟨h, rfl, hactive, hheight⟩

theorem Tidy.storeFork (ht : s.Tidy) (hid : header.headerId = some s.nextId) :
    (s.storeFork header).Tidy where
  fresh {id h} hlookup := by
    rw [Inner.storeFork] at hlookup ⊢
    by_cases heq : id = s.nextId
    · subst heq
      exact Nat.lt_succ_self _
    · rw [AList.lookup_insert_ne heq] at hlookup
      exact Nat.lt_succ_of_lt (ht.fresh hlookup)
  ids {id h} hlookup := by
    rw [Inner.storeFork] at hlookup
    by_cases heq : id = s.nextId
    · subst heq
      rw [AList.lookup_insert] at hlookup
      cases hlookup
      exact hid
    · rw [AList.lookup_insert_ne heq] at hlookup
      exact ht.ids hlookup
  height {k id} hlookup := by
    obtain ⟨h, hlookup', hactive, hheight⟩ := ht.height hlookup
    refine ⟨h, ?_, hactive, hheight⟩
    rw [Inner.storeFork, AList.lookup_insert_ne (Nat.ne_of_lt (ht.fresh hlookup'))]
    exact hlookup'

theorem headerId_place (s : Inner) (header : LiveBlockHeader) :
    (s.place header).headerId = some s.nextId := by
  unfold place
  split <;> rfl

theorem Tidy.storeTip (ht : s.Tidy) (hid : header.headerId = some s.nextId) :
    (s.storeTip header).Tidy := by
  have hnext : s.unmarkTip.nextId = s.nextId := (unmarkTip_rest s).2.1
  have hstored : (s.unmarkTip.storeFork
      { header with isActive := true, isChainTip := true }).Tidy :=
    ht.unmarkTip.storeFork (by rw [hnext]; exact hid)
  refine ⟨hstored.fresh, hstored.ids, fun {k id} hlookup => ?_⟩
  by_cases hk : k = header.height
  · subst hk
    rw [Inner.storeTip, AList.lookup_insert] at hlookup
    cases hlookup
    refine ⟨{ header with isActive := true, isChainTip := true }, ?_, rfl, rfl⟩
    rw [Inner.storeTip, Inner.storeFork, hnext]
    exact AList.lookup_insert _
  · rw [Inner.storeTip, AList.lookup_insert_ne hk, ← heightToId_unmarkTip] at hlookup
    exact hstored.height hlookup

/-- A mark of `handle_reorg` leaves the ids alone. -/
theorem Tidy.mark (ht : s.Tidy) {mark : Nat → LiveBlockHeader → Inner → Inner} {flag : Bool}
    (hm : Marks mark flag) (hlookup : s.headers.lookup id = some h) {id' : Nat}
    {h' : LiveBlockHeader} (hid : (mark id h s).headers.lookup id' = some h') :
    id' < (mark id h s).nextId ∧ h'.headerId = some id' := by
  rw [hm.headers] at hid
  rw [hm.nextId]
  by_cases heq : id' = id
  · subst heq
    rw [AList.lookup_insert] at hid
    cases hid
    have hself := ht.ids hlookup
    exact ⟨ht.fresh hlookup, hself⟩
  · rw [AList.lookup_insert_ne heq] at hid
    exact ⟨ht.fresh hid, ht.ids hid⟩

/-- An entry at another height is for another header. -/
theorem Tidy.height_ne (ht : s.Tidy) (hlookup : s.headers.lookup id = some h) {k id' : Nat}
    (hentry : s.heightToId.lookup k = some id') (hk : k ≠ h.height) (header : LiveBlockHeader) :
    ∃ h', (s.headers.insert id header).lookup id' = some h' ∧ h'.isActive = true ∧ h'.height = k := by
  obtain ⟨h', hlookup', hactive, hheight⟩ := ht.height hentry
  have hne : id' ≠ id := fun heq => by
    subst heq
    rw [hlookup] at hlookup'
    cases hlookup'
    exact hk hheight.symm
  exact ⟨h', by rw [AList.lookup_insert_ne hne]; exact hlookup', hactive, hheight⟩

theorem Tidy.deactivate (ht : s.Tidy) (hlookup : s.headers.lookup id = some h) :
    (Inner.deactivate id h s).Tidy where
  fresh hid := (ht.mark marks_deactivate hlookup hid).1
  ids hid := (ht.mark marks_deactivate hlookup hid).2
  height {k id'} hid := by
    have hk : k ≠ h.height := fun hk => by
      rw [Inner.deactivate, hk, AList.lookup_erase] at hid
      cases hid
    rw [Inner.deactivate, AList.lookup_erase_ne hk] at hid
    exact ht.height_ne hlookup hid hk _

theorem Tidy.activate (ht : s.Tidy) (hlookup : s.headers.lookup id = some h) :
    (Inner.activate id h s).Tidy where
  fresh hid := (ht.mark marks_activate hlookup hid).1
  ids hid := (ht.mark marks_activate hlookup hid).2
  height {k id'} hid := by
    by_cases hk : k = h.height
    · subst hk
      rw [Inner.activate, AList.lookup_insert] at hid
      cases hid
      exact ⟨_, AList.lookup_insert _, rfl, rfl⟩
    · rw [Inner.activate, AList.lookup_insert_ne hk] at hid
      exact ht.height_ne hlookup hid hk _

theorem Tidy.sweep {mark : Nat → LiveBlockHeader → Inner → Inner}
    (hmark : ∀ {s : Inner} {id h}, s.Tidy → s.headers.lookup id = some h → (mark id h s).Tidy)
    {ancestorHash : String} {turns : Nat} {first : Option Nat} {s' : Inner}
    {passed : List LiveBlockHeader} (ht : s.Tidy)
    (h : Inner.sweep mark ancestorHash turns first s = some (s', passed)) : s'.Tidy := by
  induction turns generalizing s first passed with
  | zero =>
    cases first with
    | none =>
      cases h
      exact ht
    | some id => cases h
  | succ turns ih =>
    cases first with
    | none =>
      cases h
      exact ht
    | some id =>
      rw [Inner.sweep] at h
      cases hlookup : s.headers.lookup id with
      | none =>
        rw [hlookup] at h
        cases h
        exact ht
      | some header =>
        rw [hlookup] at h
        dsimp only at h
        split_ifs at h
        · cases h
          exact ht
        · obtain ⟨⟨s'', rest⟩, hrest, heq⟩ := Option.map_eq_some_iff.mp h
          cases heq
          exact ih (hmark ht hlookup) hrest

theorem Tidy.handleReorg {reorgHeightThreshold oldTipId newTipId : Nat} {s' : Inner}
    {report : Nat × List BlockHeader} (ht : s.Tidy)
    (h : Inner.handleReorg reorgHeightThreshold s oldTipId newTipId = some (s', report)) :
    s'.Tidy := by
  unfold Inner.handleReorg at h
  split at h
  · cases h
  · cases h
    exact ht
  · rename_i ancestor _
    cases hdown : Inner.sweep Inner.deactivate ancestor.hash (s.size + 1) (some oldTipId) s with
    | none =>
      rw [hdown] at h
      cases h
    | some down =>
      rw [hdown] at h
      dsimp only at h
      cases hup : Inner.sweep Inner.activate ancestor.hash (down.1.size + 1) (some newTipId) down.1 with
      | none =>
        rw [hup] at h
        cases h
      | some up =>
        rw [hup] at h
        cases h
        exact (ht.sweep Tidy.deactivate hdown).sweep Tidy.activate hup

theorem Tidy.withTip (ht : s.Tidy) (tipId : Option Nat) : { s with tipId := tipId }.Tidy :=
  ⟨ht.fresh, ht.ids, ht.height⟩

theorem Tidy.withBulk (ht : s.Tidy) (bulk : AList fun _ : Nat => BlockHeader) :
    { s with bulk := bulk }.Tidy :=
  ⟨ht.fresh, ht.ids, ht.height⟩

theorem Tidy.insertHeader (ht : s.Tidy) {reorgHeightThreshold : Nat} {result : InsertHeaderResult}
    {s' : Inner} (h : Inner.insertHeader reorgHeightThreshold header s = some (result, s')) :
    s'.Tidy := by
  have htip := ht.storeTip (headerId_place s header)
  unfold Inner.insertHeader at h
  split_ifs at h
  · cases h
    exact ht
  · dsimp only at h
    split at h
    · split_ifs at h
      · obtain ⟨⟨after, depth, passed⟩, hreorg, heq⟩ := Option.map_eq_some_iff.mp h
        cases heq
        exact (htip.handleReorg hreorg).withTip _
      · cases h
        exact htip.withTip _
      · cases h
        exact ht.storeFork (headerId_place s header)
    · cases h
      exact htip.withTip _

theorem Tidy.remove (ht : s.Tidy) (ids : List Nat) : (s.remove ids).Tidy := by
  induction ids generalizing s with
  | nil => exact ht
  | cons first rest ih =>
    cases hlookup : s.headers.lookup first with
    | none =>
      have hskip : s.remove (first :: rest) = s.remove rest := by
        rw [Inner.remove, List.foldl_cons, hlookup]
        rfl
      rw [hskip]
      exact ih ht
    | some h =>
      rw [remove_cons hlookup]
      have hkept : ∀ {id h'}, (s.headers.erase first).lookup id = some h' →
          s.headers.lookup id = some h' := by
        intro id h' hid
        have hne : id ≠ first := fun heq => by
          rw [heq, AList.lookup_erase] at hid
          cases hid
        rwa [AList.lookup_erase_ne hne] at hid
      refine ih ⟨fun hid => ht.fresh (hkept hid), fun hid => ht.ids (hkept hid), fun {k id} hid => ?_⟩
      have hk : k ≠ h.height := fun hk => by
        rw [removeOne, hk, AList.lookup_erase] at hid
        cases hid
      rw [removeOne, AList.lookup_erase_ne hk] at hid
      obtain ⟨h', hlookup', hactive, hheight⟩ := ht.height hid
      have hne : id ≠ first := fun heq => by
        rw [heq, hlookup] at hlookup'
        cases hlookup'
        exact hk hheight.symm
      exact ⟨h', by rw [removeOne, AList.lookup_erase_ne hne]; exact hlookup', hactive, hheight⟩

end Inner

/-- A MemoryStorage that serves whatever call comes. -/
def memoryCalls (liveHeightThreshold reorgHeightThreshold : Nat) : System Inner StorageCall :=
  { storageSystem liveHeightThreshold reorgHeightThreshold with Enabled := fun _ _ => True }

theorem Inner.Tidy.next {s : Inner} (ht : s.Tidy) (liveHeightThreshold reorgHeightThreshold : Nat)
    (call : StorageCall) :
    ((memoryCalls liveHeightThreshold reorgHeightThreshold).next call s).Tidy := by
  cases call with
  | insertHeader header =>
    show (((Inner.insertHeader reorgHeightThreshold header s).map Prod.snd).getD s).Tidy
    cases h : Inner.insertHeader reorgHeightThreshold header s with
    | none => exact ht
    | some r => exact ht.insertHeader h
  | pruneLiveBlockHeaders activeTipHeight => exact ht.remove _
  | migrateLiveToBulk count =>
    show (s.migrateLiveToBulk count).2.Tidy
    rw [Inner.migrateLiveToBulk]
    split
    · exact ht
    · exact (ht.withBulk _).remove _
  | deleteOlderLiveBlockHeaders maxHeight => exact (ht.remove _).withTip _

/-- The height index is sound in every state. -/
theorem tidy_of_reaches {liveHeightThreshold reorgHeightThreshold : Nat} {s : Inner}
    (h : (memoryCalls liveHeightThreshold reorgHeightThreshold).Reaches (fun _ _ => True) s) : s.Tidy :=
  h.inv Inner.tidy_empty fun _ call ht _ _ => ht.next _ _ call

/-! ## The archived heights -/

/-- A height lies in one of the ranges. -/
def Covered (ranges : List HeightRange) (height : Nat) : Prop :=
  ∃ r ∈ ranges, r.low ≤ height ∧ height ≤ r.high

theorem covered_append {ranges more : List HeightRange} {height : Nat} :
    Covered (ranges ++ more) height ↔ Covered ranges height ∨ Covered more height := by
  simp only [Covered, List.mem_append, or_and_right, exists_or]

theorem covered_singleton {r : HeightRange} {height : Nat} :
    Covered [r] height ↔ r.low ≤ height ∧ height ≤ r.high := by
  simp [Covered]

/-- A turn of the loop covers the next height in addition. -/
theorem extendRanges_spec {ranges : List HeightRange} (hordered : ∀ r ∈ ranges, r.low ≤ r.high)
    (next : Nat) :
    (∀ r ∈ extendRanges ranges next, r.low ≤ r.high) ∧
      ∀ height, Covered (extendRanges ranges next) height ↔ Covered ranges height ∨ height = next := by
  have hsingle : ∀ height, Covered [⟨next, next⟩] height ↔ height = next := fun height => by
    rw [covered_singleton]
    dsimp only
    omega
  rcases List.eq_nil_or_concat ranges with rfl | ⟨init, last, rfl⟩
  · rw [extendRanges, List.getLast?_nil]
    refine ⟨by simp, fun height => ?_⟩
    rw [hsingle]
    simp [Covered]
  · have hlast := hordered last (by simp)
    rw [extendRanges, List.concat_eq_append, List.getLast?_concat]
    dsimp only
    by_cases hnext : next = last.high + 1
    · rw [if_pos hnext, List.dropLast_concat]
      constructor
      · intro r hr
        rcases List.mem_append.mp hr with hr | hr
        · exact hordered r (by simp [hr])
        · cases List.mem_singleton.mp hr
          dsimp only
          omega
      · intro height
        rw [covered_append, covered_append, covered_singleton, covered_singleton, or_assoc]
        refine or_congr_right ?_
        dsimp only
        omega
    · rw [if_neg hnext]
      constructor
      · intro r hr
        rcases List.mem_append.mp hr with hr | hr
        · exact hordered r (by simpa using hr)
        · cases List.mem_singleton.mp hr
          exact le_refl next
      · intro height
        rw [covered_append, hsingle]

/-- The ranges cover the heights, whatever the order of these. -/
theorem covered_contiguousRanges (heights : List Nat) (height : Nat) :
    Covered (contiguousRanges heights) height ↔ height ∈ heights := by
  have hrun : ∀ (ranges : List HeightRange), (∀ r ∈ ranges, r.low ≤ r.high) →
      (Covered (heights.foldl extendRanges ranges) height ↔
        Covered ranges height ∨ height ∈ heights) := by
    induction heights with
    | nil => simp
    | cons next rest ih =>
      intro ranges hordered
      obtain ⟨hordered', hcovered⟩ := extendRanges_spec hordered next
      rw [List.foldl_cons, ih _ hordered', hcovered, List.mem_cons, or_assoc]
  rw [contiguousRanges, hrun [] (by simp)]
  simp [Covered]

theorem covered_available (s : Inner) (height : Nat) :
    Covered s.getAvailableHeightRanges height ↔ height ∈ s.bulk := by
  rw [Inner.getAvailableHeightRanges, covered_contiguousRanges, List.mem_mergeSort]
  exact AList.mem_keys.symm

/-! ## The oldest headers of the chain -/

deriving instance Inhabited for LiveBlockHeader

namespace Inner

variable {s : Inner} {path : List Nat} {id : Nat} {h : LiveBlockHeader}

def headerOf (s : Inner) (id : Nat) : LiveBlockHeader := (s.headers.lookup id).getD default

theorem headerOf_eq (hlookup : s.headers.lookup id = some h) : s.headerOf id = h := by
  rw [headerOf, hlookup, Option.getD_some]

/-- The active headers are the ids of the path: one for each height from the first one on, the last
of them the tip. -/
structure ActivePath (s : Inner) (path : List Nat) : Prop where
  active : ∀ id, s.Active id ↔ id ∈ path
  contiguous : path.IsChain fun id next => s.heightOf next = s.heightOf id + 1
  tip : path.getLast? = s.tipId

/-- The oldest ids of the path below the tip. -/
def oldest (path : List Nat) (count : Nat) : List Nat := path.dropLast.take count

theorem ActivePath.ordered (hp : s.ActivePath path) :
    path.Pairwise fun id id' => s.heightOf id < s.heightOf id' := by
  have : IsTrans Nat fun id id' => s.heightOf id < s.heightOf id' := ⟨fun _ _ _ => Nat.lt_trans⟩
  refine List.isChain_iff_pairwise.mp (hp.contiguous.imp fun id next hnext => ?_)
  omega

theorem ActivePath.lookup (hp : s.ActivePath path) (hid : id ∈ path) :
    s.headers.lookup id = some (s.headerOf id) ∧ (s.headerOf id).isActive = true := by
  obtain ⟨h, hlookup, hactive⟩ := (hp.active id).mpr hid
  rw [headerOf_eq hlookup]
  exact ⟨hlookup, hactive⟩

theorem ActivePath.height (hp : s.ActivePath path) (hid : id ∈ path) :
    (s.headerOf id).height = s.heightOf id :=
  (heightOf_eq (hp.lookup hid).1).symm

theorem ActivePath.eq_of_height (hp : s.ActivePath path) {id' : Nat} (hid : id ∈ path)
    (hid' : id' ∈ path) (heq : s.heightOf id = s.heightOf id') : id = id' :=
  List.inj_on_of_nodup_map (List.pairwise_map.mpr (hp.ordered.imp Nat.ne_of_lt)) hid hid' heq

/-- The tip is not among the oldest ids, and stands above them. -/
theorem ActivePath.split (hp : s.ActivePath path) (count : Nat) :
    ∃ young, path = oldest path count ++ young ∧
      ∀ id ∈ oldest path count, ∀ id' ∈ young, s.heightOf id < s.heightOf id' := by
  have hprefix : oldest path count <+: path :=
    (List.take_prefix count _).trans (List.dropLast_prefix path)
  obtain ⟨young, hyoung⟩ := hprefix
  refine ⟨young, hyoung.symm, ?_⟩
  have hordered := hp.ordered
  rw [← hyoung] at hordered
  exact (List.pairwise_append.mp hordered).2.2

theorem ActivePath.mem_dropLast (hp : s.ActivePath path) :
    id ∈ path.dropLast ↔ id ∈ path ∧ some id ≠ s.tipId := by
  rcases List.eq_nil_or_concat path with rfl | ⟨init, tip, rfl⟩
  · simp
  · have htip := hp.tip
    have hordered := hp.ordered
    rw [List.concat_eq_append] at htip hordered ⊢
    rw [List.getLast?_concat] at htip
    have hbelow := (List.pairwise_append.mp hordered).2.2
    rw [List.dropLast_concat, ← htip, List.mem_append, List.mem_singleton, ne_eq, Option.some_inj]
    constructor
    · exact fun hid => ⟨.inl hid, fun heq => Nat.lt_irrefl _ (heq ▸ hbelow id hid tip (by simp))⟩
    · rintro ⟨hid | rfl, hne⟩
      · exact hid
      · exact absurd rfl hne

theorem Tidy.nodup_values (ht : s.Tidy) : s.values.Nodup := by
  refine List.Nodup.map_on ?_ s.headers.nodupKeys.nodup
  intro e he e' he' heq
  have hid := ht.ids (AList.mem_lookup_iff.mpr he)
  have hid' := ht.ids (AList.mem_lookup_iff.mpr he')
  rw [heq, hid', Option.some_inj] at hid
  exact Sigma.ext hid.symm (heq_of_eq heq)

/-- The candidates of the migration are the oldest headers of the path, in their order. -/
theorem ActivePath.candidates (ht : s.Tidy) (hp : s.ActivePath path) (count : Nat) :
    ((s.values.filter fun h => h.isActive && decide (some (h.headerId.getD 0) ≠ s.tipId)).mergeSort
      fun a b => a.height ≤ b.height).take count = (oldest path count).map s.headerOf := by
  have hsorted : (s.values.filter fun h =>
      h.isActive && decide (some (h.headerId.getD 0) ≠ s.tipId)).mergeSort
        (fun a b => a.height ≤ b.height) = path.dropLast.map s.headerOf := by
    have hsub : ∀ id ∈ path.dropLast, id ∈ path := fun id hid => (hp.mem_dropLast.mp hid).1
    have hordered : (path.dropLast.map s.headerOf).Pairwise fun a b => a.height < b.height := by
      refine List.pairwise_map.mpr ((hp.ordered.sublist (List.dropLast_sublist path)).imp_of_mem ?_)
      intro id id' hid hid' hlt
      rwa [hp.height (hsub id hid), hp.height (hsub id' hid')]
    have hperm : (s.values.filter fun h =>
        h.isActive && decide (some (h.headerId.getD 0) ≠ s.tipId)).Perm
          (path.dropLast.map s.headerOf) := by
      have hnodup : (path.dropLast.map s.headerOf).Nodup := by
        refine hordered.imp ?_
        rintro a b hlt rfl
        exact Nat.lt_irrefl _ hlt
      refine (List.perm_ext_iff_of_nodup (ht.nodup_values.filter _) hnodup).mpr fun h => ?_
      rw [List.mem_filter, mem_values, List.mem_map, Bool.and_eq_true, decide_eq_true_eq]
      constructor
      · rintro ⟨⟨id, hlookup⟩, hactive, htip⟩
        rw [ht.ids hlookup, Option.getD_some] at htip
        exact ⟨id, hp.mem_dropLast.mpr ⟨(hp.active id).mp ⟨h, hlookup, hactive⟩, htip⟩,
          headerOf_eq hlookup⟩
      · rintro ⟨id, hid, rfl⟩
        obtain ⟨hpath, htip⟩ := hp.mem_dropLast.mp hid
        obtain ⟨hlookup, hactive⟩ := hp.lookup hpath
        refine ⟨⟨id, hlookup⟩, hactive, ?_⟩
        rwa [ht.ids hlookup, Option.getD_some]
    have htotal : ∀ a b : LiveBlockHeader,
        (decide (a.height ≤ b.height) || decide (b.height ≤ a.height)) = true := by
      intro a b
      simpa using Nat.le_total a.height b.height
    have htrans : ∀ a b c : LiveBlockHeader, decide (a.height ≤ b.height) = true →
        decide (b.height ≤ c.height) = true → decide (a.height ≤ c.height) = true := by
      intro a b c hab hbc
      simp only [decide_eq_true_eq] at *
      omega
    refine @List.Perm.eq_of_pairwise _ (fun a b => a.height ≤ b.height) _ _ ?_ ?_
      (hordered.imp Nat.le_of_lt) ((List.mergeSort_perm _ _).trans hperm)
    · intro a b ha hb hab hba
      obtain ⟨id, hid, rfl⟩ := List.mem_map.mp
        (((List.mergeSort_perm _ _).trans hperm).mem_iff.mp ha)
      obtain ⟨id', hid', rfl⟩ := List.mem_map.mp hb
      rw [hp.height (hsub id hid), hp.height (hsub id' hid')] at hab hba
      rw [hp.eq_of_height (hsub id hid) (hsub id' hid') (Nat.le_antisymm hab hba)]
    · exact (List.pairwise_mergeSort htrans htotal _).imp of_decide_eq_true
  rw [hsorted, ← List.map_take, oldest]

/-! ## The migrated state -/

theorem foldl_max_spec (heights : List Nat) (height : Nat) :
    (∀ k ∈ height :: heights, k ≤ heights.foldl max height) ∧
      heights.foldl max height ∈ height :: heights := by
  induction heights generalizing height with
  | nil => simp
  | cons next rest ih =>
    obtain ⟨hle, hmem⟩ := ih (max height next)
    have hmax := hle (max height next) List.mem_cons_self
    rw [List.foldl_cons]
    constructor
    · intro k hk
      rcases List.mem_cons.mp hk with rfl | hk
      · omega
      · rcases List.mem_cons.mp hk with rfl | hk
        · omega
        · exact hle k (List.mem_cons_of_mem _ hk)
    · rcases List.mem_cons.mp hmem with heq | hmem
      · rw [heq]
        rcases Nat.le_total height next with h | h
        · rw [Nat.max_eq_right h]
          simp
        · rw [Nat.max_eq_left h]
          simp
      · simp [hmem]

/-- What the archiving of some headers leaves: all headers up to the highest of them are gone from
the live window, and each of them is archived. -/
structure Migrated (s s' : Inner) (old : List Nat) : Prop where
  lookup : ∀ id, s'.headers.lookup id =
    if ∃ o ∈ old, s.heightOf id ≤ s.heightOf o then none else s.headers.lookup id
  height : ∀ k, s'.heightToId.lookup k =
    if ∃ o ∈ old, k ≤ s.heightOf o then none else s.heightToId.lookup k
  archived : ∀ o ∈ old, s'.bulk.lookup (s.heightOf o) = some (s.headerOf o).toBlockHeader
  kept : ∀ k, (∀ o ∈ old, s.heightOf o ≠ k) → s'.bulk.lookup k = s.bulk.lookup k
  tip : s'.tipId = s.tipId

theorem remove_rest (s : Inner) (ids : List Nat) :
    (s.remove ids).bulk = s.bulk ∧ (s.remove ids).tipId = s.tipId := by
  induction ids generalizing s with
  | nil => exact ⟨rfl, rfl⟩
  | cons first rest ih =>
    cases hlookup : s.headers.lookup first with
    | none =>
      have hskip : s.remove (first :: rest) = s.remove rest := by
        rw [Inner.remove, List.foldl_cons, hlookup]
        rfl
      rw [hskip]
      exact ih s
    | some h =>
      rw [remove_cons hlookup]
      exact ih (removeOne first h s)

/-- The archive after headers of different heights have entered it. -/
theorem lookup_archive {old : List Nat} (hnodup : (old.map s.heightOf).Nodup)
    (hheight : ∀ o ∈ old, (s.headerOf o).height = s.heightOf o)
    (bulk : AList fun _ : Nat => BlockHeader) :
    (∀ o ∈ old, ((old.map s.headerOf).foldl (fun bulk h => bulk.insert h.height h.toBlockHeader)
        bulk).lookup (s.heightOf o) = some (s.headerOf o).toBlockHeader) ∧
      ∀ k, (∀ o ∈ old, s.heightOf o ≠ k) →
        ((old.map s.headerOf).foldl (fun bulk h => bulk.insert h.height h.toBlockHeader)
          bulk).lookup k = bulk.lookup k := by
  induction old generalizing bulk with
  | nil => simp
  | cons first rest ih =>
    obtain ⟨hfirst, hrest⟩ := List.nodup_cons.mp hnodup
    obtain ⟨harchived, hkept⟩ := ih hrest (fun o ho => hheight o (List.mem_cons_of_mem _ ho))
      (bulk.insert (s.headerOf first).height (s.headerOf first).toBlockHeader)
    rw [List.map_cons, List.foldl_cons]
    constructor
    · intro o ho
      rcases List.mem_cons.mp ho with rfl | ho
      · rw [hkept _ fun o' ho' heq => hfirst (List.mem_map.mpr ⟨o', ho', heq⟩),
          hheight o List.mem_cons_self, AList.lookup_insert]
      · exact harchived o ho
    · intro k hk
      rw [hkept k fun o ho => hk o (List.mem_cons_of_mem _ ho), hheight first List.mem_cons_self,
        AList.lookup_insert_ne (Ne.symm (hk first List.mem_cons_self))]

theorem ActivePath.oldest_mem (hp : s.ActivePath path) {count : Nat} (hid : id ∈ oldest path count) :
    id ∈ path := by
  obtain ⟨young, hyoung, -⟩ := hp.split count
  rw [hyoung]
  exact List.mem_append_left _ hid

/-- What `migrate_live_to_bulk` does on a chain of active headers. -/
theorem migrated (ht : s.Tidy) (hp : s.ActivePath path) (count : Nat) :
    (s.migrateLiveToBulk count).1 = (oldest path count).length ∧
      Migrated s (s.migrateLiveToBulk count).2 (oldest path count) := by
  have hheight : ∀ o ∈ oldest path count, (s.headerOf o).height = s.heightOf o :=
    fun o ho => hp.height (hp.oldest_mem ho)
  have hnodup : ((oldest path count).map s.heightOf).Nodup := by
    obtain ⟨young, hyoung, -⟩ := hp.split count
    have hordered := hp.ordered
    rw [hyoung] at hordered
    exact List.pairwise_map.mpr ((List.pairwise_append.mp hordered).1.imp Nat.ne_of_lt)
  have hheights : ((oldest path count).map s.headerOf).map (·.height) =
      (oldest path count).map s.heightOf := by
    rw [List.map_map]
    exact List.map_congr_left hheight
  rw [migrateLiveToBulk]
  simp only [hp.candidates ht count, hheights]
  cases hold : oldest path count with
  | nil =>
    exact ⟨rfl, fun id => by simp, fun k => by simp, by simp, fun _ _ => rfl, rfl⟩
  | cons first rest =>
    rw [hold] at hheight hnodup
    rw [List.map_cons]
    dsimp only
    obtain ⟨top, htop⟩ : ∃ top, (rest.map s.heightOf).foldl max (s.heightOf first) = top := ⟨_, rfl⟩
    obtain ⟨hle, hmem⟩ := foldl_max_spec (rest.map s.heightOf) (s.heightOf first)
    rw [htop, ← List.map_cons] at hle hmem
    have hreach : ∀ k, (∃ o ∈ first :: rest, k ≤ s.heightOf o) ↔ k ≤ top := by
      intro k
      constructor
      · rintro ⟨o, ho, hk⟩
        exact Nat.le_trans hk (hle _ (List.mem_map_of_mem ho))
      · intro hk
        obtain ⟨o, ho, rfl⟩ := List.mem_map.mp hmem
        exact ⟨o, ho, hk⟩
    obtain ⟨harchived, hkept⟩ := lookup_archive hnodup hheight s.bulk
    rw [htop]
    have hremoved : ∀ {id h}, s.headers.lookup id = some h →
        (id ∈ s.idsWhere (fun h => decide (h.height ≤ top)) ↔ h.height ≤ top) := by
      intro id h hlookup
      rw [mem_idsWhere]
      simp [hlookup]
    have hstored := idsWhere_stored (s := s) fun h => decide (h.height ≤ top)
    have hids := nodup_idsWhere (s := s) fun h => decide (h.height ≤ top)
    obtain ⟨bulk, hbulk⟩ : ∃ bulk, ((first :: rest).map s.headerOf).foldl
      (fun bulk h => bulk.insert h.height h.toBlockHeader) s.bulk = bulk := ⟨_, rfl⟩
    rw [hbulk] at harchived hkept ⊢
    have hrest := remove_rest { s with bulk } (s.idsWhere fun h => decide (h.height ≤ top))
    refine ⟨by simp, ?_, ?_, ?_, ?_, hrest.2⟩
    · intro id
      rw [lookup_remove (s := { s with bulk }) hstored hids]
      simp only [hreach]
      cases hlookup : s.headers.lookup id with
      | none => simp only [ite_self]
      | some h => simp only [hremoved hlookup, heightOf_eq hlookup]
    · intro k
      rw [foldl_remove (s := { s with bulk }) heightToId (·.height) 0 (fun _ _ _ => rfl) hstored hids,
        lookup_foldl_erase]
      simp only [hreach]
      by_cases hk : k ≤ top
      · rw [if_pos hk, ite_eq_left_iff]
        intro hnone
        refine Option.eq_none_iff_forall_ne_some.mpr fun id hentry => hnone ?_
        obtain ⟨h, hlookup, -, rfl⟩ := ht.height hentry
        exact ⟨id, (hremoved hlookup).mpr hk, heightOf_eq hlookup⟩
      · rw [if_neg hk, if_neg]
        rintro ⟨id, hid, hkey⟩
        obtain ⟨h, hlookup⟩ := lookup_of_mem (hstored id hid)
        have hle := (hremoved hlookup).mp hid
        rw [← heightOf_eq hlookup] at hle
        exact hk (hkey ▸ hle)
    · intro o ho
      rw [hrest.1]
      exact harchived o ho
    · intro k hk
      rw [hrest.1]
      exact hkept k hk

/-- Nothing of the chain is at a height up to that of an archived header, but the archived ones. -/
theorem ActivePath.mem_oldest (hp : s.ActivePath path) {count o : Nat} (ho : o ∈ oldest path count)
    (hid : id ∈ path) (hle : s.heightOf id ≤ s.heightOf o) : id ∈ oldest path count := by
  obtain ⟨young, hyoung, hbelow⟩ := hp.split count
  rw [hyoung] at hid
  rcases List.mem_append.mp hid with hid | hid
  · exact hid
  · have := hbelow o ho id hid
    omega

/-- The look-ups by height are unchanged exactly when they found the archived headers before. -/
theorem Migrated.findHeaderForHeight_iff {s' : Inner} {count : Nat} (ht : s.Tidy)
    (hp : s.ActivePath path) (hm : Migrated s s' (oldest path count)) :
    (∀ k, s'.findHeaderForHeight k = s.findHeaderForHeight k) ↔
      ∀ id ∈ oldest path count, s.findHeaderForHeight (s.heightOf id) =
        some (s.headerOf id).toBlockHeader := by
  have harchived : ∀ o ∈ oldest path count,
      s'.findHeaderForHeight (s.heightOf o) = some (s.headerOf o).toBlockHeader := by
    intro o ho
    rw [findHeaderForHeight, hm.height, if_pos ⟨o, ho, le_refl _⟩]
    exact hm.archived o ho
  constructor
  · intro h id hid
    rw [← h, harchived id hid]
  · intro h k
    by_cases hk : ∃ o ∈ oldest path count, k ≤ s.heightOf o
    · by_cases hat : ∃ o ∈ oldest path count, s.heightOf o = k
      · obtain ⟨o, ho, rfl⟩ := hat
        rw [harchived o ho, h o ho]
      · -- a height below the chain: neither state has an entry
        have hnone : s.heightToId.lookup k = none := by
          refine Option.eq_none_iff_forall_ne_some.mpr fun id hentry => ?_
          obtain ⟨header, hlookup, hactive, rfl⟩ := ht.height hentry
          obtain ⟨o, ho, hle⟩ := hk
          have hid := (hp.active id).mp ⟨header, hlookup, hactive⟩
          rw [← heightOf_eq hlookup] at hle hat
          exact hat ⟨id, hp.mem_oldest ho hid hle, rfl⟩
        rw [findHeaderForHeight, findHeaderForHeight, hm.height, if_pos hk, hnone]
        exact hm.kept k fun o ho heq => hat ⟨o, ho, heq⟩
    · rw [findHeaderForHeight, findHeaderForHeight, hm.height, if_neg hk]
      cases hentry : s.heightToId.lookup k with
      | none => exact hm.kept k fun o ho heq => hk ⟨o, ho, heq.ge⟩
      | some id =>
        obtain ⟨header, hlookup, -, rfl⟩ := ht.height hentry
        have hstays : ¬∃ o ∈ oldest path count, s.heightOf id ≤ s.heightOf o := by
          rwa [heightOf_eq hlookup]
        dsimp only
        rw [hm.lookup, if_neg hstays]

/-- Of the chain, the headers that leave the live window are the archived ones. -/
theorem Migrated.gone_iff {s' : Inner} {count : Nat} (hp : s.ActivePath path)
    (hm : Migrated s s' (oldest path count)) (hid : id ∈ path) :
    id ∉ s'.headers ↔ id ∈ oldest path count := by
  rw [← AList.lookup_eq_none, hm.lookup]
  constructor
  · intro hnone
    by_contra hnot
    rw [if_neg, (hp.lookup hid).1] at hnone
    · cases hnone
    · rintro ⟨o, ho, hle⟩
      exact hnot (hp.mem_oldest ho hid hle)
  · exact fun hmem => if_pos ⟨id, hmem, le_refl _⟩

/-- A migration that archives some of the active headers, keeps the tip, reports the archived
heights and is not seen by the look-ups by height. -/
structure InvisibleMigration (s s' : Inner) (path : List Nat) (migrated : Nat) : Prop where
  count : migrated = (path.filter (· ∉ s'.headers)).length
  archived : ∀ id ∈ path, id ∉ s'.headers →
    s'.bulk.lookup (s.heightOf id) = some (s.headerOf id).toBlockHeader
  tip : ∀ tipId, s.tipId = some tipId →
    s'.tipId = some tipId ∧ s'.headers.lookup tipId = s.headers.lookup tipId
  ranges : ∀ k, Covered s'.getAvailableHeightRanges k ↔ k ∈ s'.bulk
  lookups : ∀ k, s'.findHeaderForHeight k = s.findHeaderForHeight k

end Inner

/-- In every state whose active headers form a chain, the migration is invisible exactly when the
headers that it archives were found at their heights before. -/
theorem migration_invisible_iff {liveHeightThreshold reorgHeightThreshold : Nat} {s : Inner}
    {path : List Nat}
    (hreach : (memoryCalls liveHeightThreshold reorgHeightThreshold).Reaches (fun _ _ => True) s)
    (hp : s.ActivePath path) (count : Nat) :
    Inner.InvisibleMigration s (s.migrateLiveToBulk count).2 path (s.migrateLiveToBulk count).1 ↔
      ∀ id ∈ Inner.oldest path count, s.findHeaderForHeight (s.heightOf id) =
        some (s.headerOf id).toBlockHeader := by
  have ht := tidy_of_reaches hreach
  obtain ⟨hcount, hm⟩ := Inner.migrated ht hp count
  rw [← hm.findHeaderForHeight_iff ht hp]
  refine ⟨fun h => h.lookups, fun hlookups => ⟨?_, ?_, ?_, covered_available _, hlookups⟩⟩
  · obtain ⟨young, hyoung, hbelow⟩ := hp.split count
    have hgone : path.filter (· ∉ (s.migrateLiveToBulk count).2.headers) =
        path.filter (· ∈ Inner.oldest path count) :=
      List.filter_congr fun id hid => decide_eq_decide.mpr (hm.gone_iff hp hid)
    have hyoungNot : ∀ id ∈ young, id ∉ Inner.oldest path count :=
      fun id hid hold => Nat.lt_irrefl _ (hbelow id hold id hid)
    rw [hcount, hgone]
    generalize Inner.oldest path count = old at hyoung hyoungNot
    rw [hyoung, List.filter_append, List.filter_eq_self.mpr fun id hid => decide_eq_true hid,
      List.filter_eq_nil_iff.mpr fun id hid => by simpa using hyoungNot id hid, List.append_nil]
  · intro id hid hgone
    exact hm.archived id ((hm.gone_iff hp hid).mp hgone)
  · intro tipId htip
    refine ⟨hm.tip.trans htip, ?_⟩
    rw [hm.lookup, if_neg]
    rintro ⟨o, ho, hle⟩
    have hmem : tipId ∈ path := List.mem_of_getLast? (hp.tip.trans htip)
    have hold := hp.mem_oldest ho hmem hle
    exact (hp.mem_dropLast.mp (List.mem_of_mem_take hold)).2 htip.symm

/-! ## A fork below the chain -/

instance (liveHeightThreshold reorgHeightThreshold : Nat) (s : Inner) (call : StorageCall) :
    Decidable ((memoryCalls liveHeightThreshold reorgHeightThreshold).Enabled s call) :=
  isTrue trivial

/-- The active headers by their marks. -/
theorem Inner.activePath_of {s : Inner} {path : List Nat}
    (hactive : ∀ id ∈ s.idsWhere (·.isActive), id ∈ path)
    (hmarked : ∀ id ∈ path, id ∈ s.idsWhere (·.isActive))
    (hcontiguous : path.IsChain fun id next => s.heightOf next = s.heightOf id + 1)
    (htip : path.getLast? = s.tipId) : s.ActivePath path where
  active id := mem_idsWhere.symm.trans ⟨hactive id, hmarked id⟩
  contiguous := hcontiguous
  tip := htip

/-- A chain of three blocks is migrated up to its tip. -/
theorem migration_invisible_chain :
    ∃ s path, path = [1, 2, 3] ∧
      Inner.InvisibleMigration s (s.migrateLiveToBulk 5).2 path (s.migrateLiveToBulk 5).1 := by
  obtain ⟨s, hreach, hactive, hmarked, hcontiguous, htip, hfound⟩ : ∃ s,
      (memoryCalls 0 2).Reaches (fun _ _ => True) s ∧
      (∀ id ∈ s.idsWhere (·.isActive), id ∈ [1, 2, 3]) ∧
      (∀ id ∈ [1, 2, 3], id ∈ s.idsWhere (·.isActive)) ∧
      ([1, 2, 3].IsChain fun id next => s.heightOf next = s.heightOf id + 1) ∧
      [1, 2, 3].getLast? = s.tipId ∧
      ∀ id ∈ Inner.oldest [1, 2, 3] 5, s.findHeaderForHeight (s.heightOf id) =
        some (s.headerOf id).toBlockHeader :=
    ⟨(memoryCalls 0 2).after {} [.insertHeader (forkHeader 0 zeroHash "g"),
        .insertHeader (forkHeader 1 "g" "a1"), .insertHeader (forkHeader 2 "a1" "a2")],
      System.Reaches.after .init (by decide +kernel), by decide +kernel, by decide +kernel,
      by decide +kernel, by decide +kernel, by decide +kernel⟩
  exact ⟨s, [1, 2, 3], rfl, (migration_invisible_iff hreach
    (Inner.activePath_of hactive hmarked hcontiguous htip) 5).mpr hfound⟩

/-- The pruned fork has taken the entry of its height along, and the migration brings the header of
the chain back. -/
theorem migration_not_invisible :
    ¬∀ liveHeightThreshold reorgHeightThreshold s path count,
      (memoryCalls liveHeightThreshold reorgHeightThreshold).Reaches (fun _ _ => True) s →
        s.ActivePath path → Inner.InvisibleMigration s (s.migrateLiveToBulk count).2 path
          (s.migrateLiveToBulk count).1 := by
  intro h
  obtain ⟨s, hreach, hactive, hmarked, hcontiguous, htip, hlost⟩ : ∃ s,
      (memoryCalls 0 2).Reaches (fun _ _ => True) s ∧
      (∀ id ∈ s.idsWhere (·.isActive), id ∈ [1, 2, 4]) ∧
      (∀ id ∈ [1, 2, 4], id ∈ s.idsWhere (·.isActive)) ∧
      ([1, 2, 4].IsChain fun id next => s.heightOf next = s.heightOf id + 1) ∧
      [1, 2, 4].getLast? = s.tipId ∧
      s.findHeaderForHeight (s.heightOf 2) = none :=
    ⟨(memoryCalls 0 2).after {} (shortFork ++ [.pruneLiveBlockHeaders 2]),
      System.Reaches.after .init (by decide +kernel), by decide +kernel, by decide +kernel,
      by decide +kernel, by decide +kernel, by decide +kernel⟩
  have hp : s.ActivePath [1, 2, 4] := Inner.activePath_of hactive hmarked hcontiguous htip
  have harchived := (Inner.migrated (tidy_of_reaches hreach) hp 2).2.archived 2 (by decide)
  have hgone := (Inner.migrated (tidy_of_reaches hreach) hp 2).2.height (s.heightOf 2)
  rw [if_pos ⟨2, by decide, le_refl _⟩] at hgone
  have hinvisible := (h 0 2 s [1, 2, 4] 2 hreach hp).lookups (s.heightOf 2)
  rw [hlost, Inner.findHeaderForHeight, hgone] at hinvisible
  cases harchived.symm.trans hinvisible

end WalletToolbox.Chaintracks
