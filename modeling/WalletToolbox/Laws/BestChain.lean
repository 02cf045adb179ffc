import WalletToolbox.Laws.Memory
import WalletToolbox.Lib.Runs

/-! # One best active chain

The tip of MemoryStorage has the most work, and the active headers are those on its path.
An insertion keeps this when a tip that loses its place and the header that takes it have a common
ancestor within the threshold; otherwise `handle_reorg` does nothing and the old branch stays
active beside the new tip. -/

namespace WalletToolbox.Chaintracks

open WalletToolbox.Lib WalletToolbox.Lib.Forest

namespace Inner

variable {s s' : Inner} {id : Nat} {h header : LiveBlockHeader}

/-! ## A header joins the tree -/

/-- A new header that fits: its hash is new and no stored header has waited for it, its height
follows that of its parent, and without a parent it comes without a link. -/
structure Joins (s : Inner) (header : LiveBlockHeader) : Prop where
  new : s.hashToId.lookup header.hash = none
  awaited : ∀ {id h}, s.headers.lookup id = some h → h.previousHash ≠ header.hash
  notOwn : header.previousHash ≠ header.hash
  height : ∀ {above q}, s.hashToId.lookup header.previousHash = some above →
    s.headers.lookup above = some q → header.height = q.height + 1
  root : s.hashToId.lookup header.previousHash = none → header.previousHeaderId = none

/-- The state with the new header, apart from every mark. -/
def joined (s : Inner) (header : LiveBlockHeader) : Inner := s.storeFork (s.place header)

theorem place_eq (s : Inner) (header : LiveBlockHeader) :
    s.place header = { header with
      headerId := some s.nextId
      previousHeaderId := (s.hashToId.lookup header.previousHash).or header.previousHeaderId
      chainWork := (s.place header).chainWork } := by
  rw [place]
  cases s.hashToId.lookup header.previousHash <;> rfl

@[simp] theorem place_hash (s : Inner) (header : LiveBlockHeader) :
    (s.place header).hash = header.hash := by
  rw [place_eq]

@[simp] theorem place_previousHash (s : Inner) (header : LiveBlockHeader) :
    (s.place header).previousHash = header.previousHash := by
  rw [place_eq]

@[simp] theorem place_height (s : Inner) (header : LiveBlockHeader) :
    (s.place header).height = header.height := by
  rw [place_eq]

@[simp] theorem place_isActive (s : Inner) (header : LiveBlockHeader) :
    (s.place header).isActive = header.isActive := by
  rw [place_eq]

@[simp] theorem place_isChainTip (s : Inner) (header : LiveBlockHeader) :
    (s.place header).isChainTip = header.isChainTip := by
  rw [place_eq]

theorem lookup_joined (s : Inner) (header : LiveBlockHeader) (id : Nat) :
    (s.joined header).headers.lookup id =
      if id = s.nextId then some (s.place header) else s.headers.lookup id := by
  rw [joined, storeFork]
  by_cases heq : id = s.nextId
  · subst heq
    rw [AList.lookup_insert, if_pos rfl]
  · rw [AList.lookup_insert_ne heq, if_neg heq]

theorem hashToId_joined (s : Inner) (header : LiveBlockHeader) :
    (s.joined header).hashToId = s.hashToId.insert header.hash s.nextId := by
  rw [joined, storeFork, place_hash]

theorem Linked.ne_nextId (hl : s.Linked) (hlookup : s.headers.lookup id = some h) :
    id ≠ s.nextId :=
  Nat.ne_of_lt (hl.fresh hlookup)

theorem Joins.parentOf (hj : s.Joins header) (hne : id ≠ s.nextId) :
    (s.joined header).parentOf id = s.parentOf id := by
  rw [Inner.parentOf, Inner.parentOf, lookup_joined, if_neg hne, hashToId_joined]
  cases hlookup : s.headers.lookup id with
  | none => rfl
  | some h =>
    rw [Option.bind_some, Option.bind_some, AList.lookup_insert_ne (hj.awaited hlookup)]

theorem Joins.parentOf_new (hj : s.Joins header) :
    (s.joined header).parentOf s.nextId = s.hashToId.lookup header.previousHash := by
  rw [Inner.parentOf, lookup_joined, if_pos rfl, Option.bind_some, place_previousHash,
    hashToId_joined, AList.lookup_insert_ne hj.notOwn]

theorem Joins.grown (hj : s.Joins header) (hl : s.Linked) :
    Grown s.parentOf (s.joined header).parentOf s.nextId where
  same _ hne := hj.parentOf hne
  leaf x hparent := by
    obtain ⟨-, q, -, hq, -⟩ := hl.parent hparent
    exact hl.ne_nextId hq rfl

theorem Joins.linked (hj : s.Joins header) (hl : s.Linked) : (s.joined header).Linked where
  fresh {id h} hlookup := by
    rw [lookup_joined] at hlookup
    split at hlookup
    next heq => exact heq ▸ Nat.lt_succ_self _
    next => exact Nat.lt_succ_of_lt (hl.fresh hlookup)
  ids {id h} hlookup := by
    rw [lookup_joined] at hlookup
    split at hlookup
    next heq =>
      cases hlookup
      rw [place_eq, heq]
    next => exact hl.ids hlookup
  hashed hash id := by
    rw [hashToId_joined, lookup_joined]
    by_cases heq : hash = header.hash
    · subst heq
      rw [AList.lookup_insert, Option.some_inj]
      constructor
      · rintro rfl
        exact ⟨_, if_pos rfl, place_hash s header⟩
      · rintro ⟨h, hlookup, hhash⟩
        split at hlookup
        next hid => exact hid.symm
        next =>
          have hstored := hl.hash_stored hlookup
          rw [hhash, hj.new] at hstored
          cases hstored
    · rw [AList.lookup_insert_ne heq, hl.hashed]
      constructor
      · rintro ⟨h, hlookup, hhash⟩
        exact ⟨h, (if_neg (hl.ne_nextId hlookup)).trans hlookup, hhash⟩
      · rintro ⟨h, hlookup, hhash⟩
        split at hlookup
        next =>
          cases hlookup
          exact absurd (hhash.symm.trans (place_hash s header)) heq
        next => exact ⟨h, hlookup, hhash⟩
  links {id h} hlookup := by
    rw [lookup_joined] at hlookup
    rw [hashToId_joined]
    split at hlookup
    next =>
      cases hlookup
      rw [place_previousHash, AList.lookup_insert_ne hj.notOwn, place_eq]
      cases hparent : s.hashToId.lookup header.previousHash with
      | none => exact hj.root hparent
      | some above => rfl
    next =>
      rw [AList.lookup_insert_ne (hj.awaited hlookup)]
      exact hl.links hlookup
  heights {id h above q} hlookup hparent hq := by
    have habove : above ≠ s.nextId := by
      rintro rfl
      by_cases hid : id = s.nextId
      · rw [hid, hj.parentOf_new] at hparent
        obtain ⟨q', hq', -⟩ := (hl.hashed _ _).mp hparent
        exact hl.ne_nextId hq' rfl
      · rw [hj.parentOf hid] at hparent
        exact (hj.grown hl).leaf id hparent
    rw [lookup_joined, if_neg habove] at hq
    rw [lookup_joined] at hlookup
    split at hlookup
    next hid =>
      cases hlookup
      rw [hid, hj.parentOf_new] at hparent
      rw [place_height]
      exact hj.height hparent hq
    next hid =>
      rw [hj.parentOf hid] at hparent
      exact hl.heights hlookup hparent hq

/-! ## The tip takes its place -/

theorem lookup_unmarkTip (s : Inner) (id : Nat) :
    s.unmarkTip.headers.lookup id =
      if s.tipId = some id then (s.headers.lookup id).map ({ · with isChainTip := false })
      else s.headers.lookup id := by
  cases htip : s.tipId with
  | none => simp only [unmarkTip, htip, reduceCtorEq, ↓reduceIte]
  | some tipId =>
    simp only [Option.some_inj]
    cases hlookup : s.headers.lookup tipId with
    | none =>
      simp only [unmarkTip, htip, hlookup]
      split
      next heq => rw [← heq, hlookup, Option.map_none]
      next => rfl
    | some tip =>
      simp only [unmarkTip, htip, hlookup]
      by_cases heq : tipId = id
      · subst heq
        rw [AList.lookup_insert, if_pos rfl, hlookup, Option.map_some]
      · rw [AList.lookup_insert_ne (Ne.symm heq), if_neg heq]

theorem unmarkTip_rest (s : Inner) :
    s.unmarkTip.hashToId = s.hashToId ∧ s.unmarkTip.nextId = s.nextId ∧
      s.unmarkTip.tipId = s.tipId ∧ s.unmarkTip.bulk = s.bulk := by
  rw [unmarkTip]
  split
  · exact ⟨rfl, rfl, rfl, rfl⟩
  · split <;> exact ⟨rfl, rfl, rfl, rfl⟩

theorem lookup_storeTip (s : Inner) (header : LiveBlockHeader) (id : Nat) :
    (s.storeTip header).headers.lookup id =
      if id = s.nextId then some { header with isActive := true, isChainTip := true }
      else if s.tipId = some id then (s.headers.lookup id).map ({ · with isChainTip := false })
      else s.headers.lookup id := by
  rw [storeTip, storeFork, (unmarkTip_rest s).2.1]
  by_cases heq : id = s.nextId
  · subst heq
    rw [AList.lookup_insert, if_pos rfl]
  · rw [AList.lookup_insert_ne heq, if_neg heq, lookup_unmarkTip]

theorem sameTree_storeTip (s : Inner) (header : LiveBlockHeader) :
    (s.joined header).SameTree (s.storeTip (s.place header)) where
  headers id := by
    rw [lookup_storeTip, lookup_joined]
    split
    next => rfl
    next =>
      split
      next => cases s.headers.lookup id <;> rfl
      next => rfl
  hashToId := by
    rw [storeTip, storeFork, (unmarkTip_rest s).2.1, (unmarkTip_rest s).1, hashToId_joined,
      place_hash]
  nextId := by
    rw [storeTip, storeFork, (unmarkTip_rest s).2.1, joined, storeFork]

/-! ## The best chain -/

/-- A stored header is active. -/
def Active (s : Inner) (id : Nat) : Prop :=
  ∃ h, s.headers.lookup id = some h ∧ h.isActive = true

theorem active_iff (hlookup : s.headers.lookup id = some h) : s.Active id ↔ h.isActive = true := by
  rw [Active, hlookup]
  constructor
  · rintro ⟨h', heq, hactive⟩
    cases heq
    exact hactive
  · exact fun hactive => ⟨h, rfl, hactive⟩

/-- One best active chain: a tip is stored as soon as there is a header, the active headers are
those on the path of the tip, the tip alone is marked as such, and no header has more work. -/
structure SingleBestChain (s : Inner) : Prop where
  tipped : ∀ {id h}, s.headers.lookup id = some h → ∃ tipId, s.tipId = some tipId
  stored : ∀ {tipId}, s.tipId = some tipId → ∃ tip, s.headers.lookup tipId = some tip
  active : ∀ {id h}, s.headers.lookup id = some h →
    (h.isActive = true ↔ ∃ tipId, s.tipId = some tipId ∧ OnPath s.parentOf tipId id)
  marked : ∀ {id h}, s.headers.lookup id = some h → (h.isChainTip = true ↔ s.tipId = some id)
  most : ∀ {tipId tip id h}, s.tipId = some tipId → s.headers.lookup tipId = some tip →
    s.headers.lookup id = some h → isMoreWork h.chainWork tip.chainWork = false

/-- What else an insertion keeps: the headers on the way to the tip have less work than it, and
the index by height finds the active headers. -/
structure Chosen (s : Inner) : Prop extends s.SingleBestChain where
  strict : ∀ {tipId tip id h}, s.tipId = some tipId → s.headers.lookup tipId = some tip →
    s.headers.lookup id = some h → OnPath s.parentOf tipId id → id ≠ tipId →
    h.chainWork < tip.chainWork
  byHeight : IndexOf s.heightToId s.Active s.heightOf

theorem SingleBestChain.active_onPath (hb : s.SingleBestChain) (hl : s.Linked) {tipId : Nat}
    (htip : s.tipId = some tipId) (id : Nat) : s.Active id ↔ OnPath s.parentOf tipId id := by
  obtain ⟨tip, htipLookup⟩ := hb.stored htip
  constructor
  · rintro ⟨h, hlookup, hflag⟩
    obtain ⟨tipId', heq, hpath⟩ := (hb.active hlookup).mp hflag
    rw [htip] at heq
    cases heq
    exact hpath
  · intro hpath
    obtain ⟨h, hlookup⟩ := lookup_of_mem (hl.onPath_stored (mem_of_lookup htipLookup) hpath)
    exact ⟨h, hlookup, (hb.active hlookup).mpr ⟨tipId, htip, hpath⟩⟩

theorem linked_empty : ({} : Inner).Linked where
  fresh hlookup := by simp at hlookup
  ids hlookup := by simp at hlookup
  hashed hash id := by simp
  links hlookup := by simp at hlookup
  heights hlookup := by simp at hlookup

theorem chosen_empty : ({} : Inner).Chosen where
  tipped hlookup := by simp at hlookup
  stored htip := nomatch htip
  active hlookup := by simp at hlookup
  marked hlookup := by simp at hlookup
  most htip := nomatch htip
  strict htip := nomatch htip
  byHeight := IndexOf.empty.congr fun id => by simp [Active]

theorem lookup_joined_cases (hlookup : (s.joined header).headers.lookup id = some h) :
    id = s.nextId ∧ h = s.place header ∨ id ≠ s.nextId ∧ s.headers.lookup id = some h := by
  rw [lookup_joined] at hlookup
  split at hlookup
  next hid =>
    cases hlookup
    exact .inl ⟨hid, rfl⟩
  next hid => exact .inr ⟨hid, hlookup⟩

/-- A header with more work than every other is the tip, and the active headers are its path. -/
theorem Chosen.newTip (htree : (s.joined header).SameTree s') (htip : s'.tipId = some s.nextId)
    (hmore : ∀ {id h}, s.headers.lookup id = some h → h.chainWork < (s.place header).chainWork)
    (hactive : ∀ {id}, id ∈ s'.headers →
      (s'.Active id ↔ OnPath (s.joined header).parentOf s.nextId id))
    (hmarked : ∀ {id h}, s'.headers.lookup id = some h → (h.isChainTip = true ↔ id = s.nextId))
    (hindex : IndexOf s'.heightToId s'.Active s'.heightOf) : s'.Chosen := by
  have hnew : ∀ {tip}, s'.headers.lookup s.nextId = some tip →
      tip.chainWork = (s.place header).chainWork := by
    intro tip hlookup
    obtain ⟨h, hlookup', hunmarked⟩ := htree.lookup' hlookup
    rw [lookup_joined, if_pos rfl] at hlookup'
    cases hlookup'
    exact congrArg (·.chainWork) hunmarked
  have hold : ∀ {id h}, s'.headers.lookup id = some h → id ≠ s.nextId →
      h.chainWork < (s.place header).chainWork := by
    intro id h hlookup hne
    obtain ⟨h', hlookup', hunmarked⟩ := htree.lookup' hlookup
    rcases lookup_joined_cases hlookup' with ⟨heq, -⟩ | ⟨-, hstored⟩
    · exact absurd heq hne
    · have hwork : h.chainWork = h'.chainWork := congrArg (·.chainWork) hunmarked
      exact hwork ▸ hmore hstored
  refine ⟨⟨fun _ => ⟨_, htip⟩, ?_, ?_, ?_, ?_⟩, ?_, hindex⟩
  · intro tipId htipId
    rw [htip] at htipId
    cases htipId
    refine lookup_of_mem (htree.mem.mpr (mem_of_lookup (h := s.place header) ?_))
    rw [lookup_joined, if_pos rfl]
  · intro id h hlookup
    rw [← active_iff hlookup, hactive (mem_of_lookup hlookup), htree.parentOf, htip]
    constructor
    · exact fun hpath => ⟨_, rfl, hpath⟩
    · rintro ⟨tipId, heq, hpath⟩
      cases heq
      exact hpath
  · intro id h hlookup
    rw [hmarked hlookup, htip, Option.some_inj, eq_comm]
  · intro tipId tip id h htipId htipLookup hlookup
    rw [htip] at htipId
    cases htipId
    rw [← Bool.not_eq_true, isMoreWork_iff, hnew htipLookup]
    by_cases hne : id = s.nextId
    · subst hne
      rw [hnew hlookup]
      exact Nat.lt_irrefl _
    · exact Nat.not_lt.mpr (Nat.le_of_lt (hold hlookup hne))
  · intro tipId tip id h htipId htipLookup hlookup _ hne
    rw [htip] at htipId
    cases htipId
    rw [hnew htipLookup]
    exact hold hlookup hne

/-- A header that does not take the tip changes nothing for the others. -/
theorem Chosen.fork (hc : s.Chosen) (hl : s.Linked) (hj : s.Joins header) {tipId : Nat}
    {tip : LiveBlockHeader} (htip : s.tipId = some tipId)
    (htipLookup : s.headers.lookup tipId = some tip)
    (hless : isMoreWork (s.place header).chainWork tip.chainWork = false)
    (hinactive : header.isActive = false) (hunmarked : header.isChainTip = false) :
    (s.joined header).Chosen := by
  have hgrown := hj.grown hl
  have hne := hl.ne_nextId htipLookup
  have htipId' : (s.joined header).tipId = some tipId := htip
  have htipLookup' : (s.joined header).headers.lookup tipId = some tip := by
    rw [lookup_joined, if_neg hne]
    exact htipLookup
  have hactive : ∀ id, (s.joined header).Active id ↔ s.Active id := by
    intro id
    constructor
    · rintro ⟨h, hlookup, hactive⟩
      rcases lookup_joined_cases hlookup with ⟨-, rfl⟩ | ⟨-, hlookup'⟩
      · rw [place_isActive, hinactive] at hactive
        cases hactive
      · exact ⟨h, hlookup', hactive⟩
    · rintro ⟨h, hlookup, hactive⟩
      refine ⟨h, ?_, hactive⟩
      rw [lookup_joined, if_neg (hl.ne_nextId hlookup)]
      exact hlookup
  refine ⟨⟨fun _ => ⟨_, htip⟩, ?_, ?_, ?_, ?_⟩, ?_, ?_⟩
  · intro tipId' heq
    rw [htipId'] at heq
    cases heq
    exact ⟨tip, htipLookup'⟩
  · intro id h hlookup
    have hpath : (∃ tipId', (s.joined header).tipId = some tipId' ∧
        OnPath (s.joined header).parentOf tipId' id) ↔ OnPath s.parentOf tipId id := by
      rw [htipId', ← hgrown.onPath hne]
      constructor
      · rintro ⟨tipId', heq, hpath⟩
        cases heq
        exact hpath
      · exact fun hpath => ⟨tipId, rfl, hpath⟩
    rw [hpath]
    rcases lookup_joined_cases hlookup with ⟨rfl, rfl⟩ | ⟨-, hlookup'⟩
    · rw [place_isActive, hinactive, ← hgrown.onPath hne]
      exact ⟨fun h => (nomatch h), fun h => absurd h (hgrown.not_onPath hne)⟩
    · rw [hc.active hlookup', htip]
      constructor
      · rintro ⟨tipId', heq, hpath⟩
        cases heq
        exact hpath
      · exact fun hpath => ⟨tipId, rfl, hpath⟩
  · intro id h hlookup
    rw [htipId']
    rcases lookup_joined_cases hlookup with ⟨rfl, rfl⟩ | ⟨-, hlookup'⟩
    · rw [place_isChainTip, hunmarked, Option.some_inj]
      exact ⟨fun h => (nomatch h), fun h => absurd h hne⟩
    · rw [hc.marked hlookup', htip]
  · intro tipId' tip' id h heq heqLookup hlookup
    rw [htipId'] at heq
    cases heq
    rw [htipLookup'] at heqLookup
    cases heqLookup
    rcases lookup_joined_cases hlookup with ⟨-, rfl⟩ | ⟨-, hlookup'⟩
    · exact hless
    · exact hc.most htip htipLookup hlookup'
  · intro tipId' tip' id h heq heqLookup hlookup hpath hidne
    rw [htipId'] at heq
    cases heq
    rw [htipLookup'] at heqLookup
    cases heqLookup
    rw [hgrown.onPath hne] at hpath
    rcases lookup_joined_cases hlookup with ⟨rfl, -⟩ | ⟨-, hlookup'⟩
    · exact absurd ((hgrown.onPath hne).mpr hpath) (hgrown.not_onPath hne)
    · exact hc.strict htip htipLookup hlookup' hpath hidne
  · refine (hc.byHeight.congr hactive).congr_key _ ?_
    rintro id hact
    obtain ⟨h, hlookup, -⟩ := (hactive id).mp hact
    rw [heightOf_eq hlookup, heightOf_eq (h := h)]
    rw [lookup_joined, if_neg (hl.ne_nextId hlookup)]
    exact hlookup

/-- The state with a new tip that needs no reorganization. -/
def grownTip (s : Inner) (header : LiveBlockHeader) : Inner :=
  { s.storeTip (s.place header) with tipId := some s.nextId }

theorem heightToId_storeTip (s : Inner) (header : LiveBlockHeader) :
    (s.storeTip (s.place header)).heightToId = s.heightToId.insert header.height s.nextId := by
  rw [storeTip, place_height]

theorem active_storeTip (s : Inner) (header : LiveBlockHeader) (id : Nat) :
    (s.storeTip header).Active id ↔ s.Active id ∨ id = s.nextId := by
  rw [Active, Active, lookup_storeTip]
  by_cases hid : id = s.nextId
  · subst hid
    rw [if_pos rfl]
    exact ⟨fun _ => .inr rfl, fun _ => ⟨_, rfl, rfl⟩⟩
  · rw [if_neg hid]
    split
    next =>
      cases hlookup : s.headers.lookup id with
      | none => simp [hid]
      | some h => simp [hid]
    next => simp [hid]

theorem marked_storeTip (hc : s.Chosen)
    (hlookup : (s.storeTip header).headers.lookup id = some h) :
    h.isChainTip = true ↔ id = s.nextId := by
  rw [lookup_storeTip] at hlookup
  split at hlookup
  next hid =>
    cases hlookup
    exact ⟨fun _ => hid, fun _ => rfl⟩
  next hid =>
    split at hlookup
    next =>
      obtain ⟨h', -, rfl⟩ := Option.map_eq_some_iff.mp hlookup
      exact ⟨fun h => (nomatch h), fun h => absurd h hid⟩
    next htip =>
      rw [hc.marked hlookup]
      exact ⟨fun h => absurd h htip, fun h => absurd h hid⟩

theorem heightOf_joined (hl : s.Linked) (hlookup : s.headers.lookup id = some h) :
    (s.joined header).heightOf id = s.heightOf id := by
  rw [heightOf_eq hlookup, heightOf_eq (h := h)]
  rw [lookup_joined, if_neg (hl.ne_nextId hlookup)]
  exact hlookup

theorem heightOf_nextId (s : Inner) (header : LiveBlockHeader) :
    (s.joined header).heightOf s.nextId = header.height := by
  rw [heightOf, lookup_joined, if_pos rfl, Option.map_some, place_height, Option.getD_some]

/-- The first header, or one that extends the tip. -/
theorem Chosen.grow (hc : s.Chosen) (hl : s.Linked) (hj : s.Joins header)
    (hmore : ∀ {id h}, s.headers.lookup id = some h → h.chainWork < (s.place header).chainWork)
    (hparent : s.hashToId.lookup header.previousHash = s.tipId) : (s.grownTip header).Chosen := by
  have htree := sameTree_storeTip s header
  have hgrown := hj.grown hl
  have hpath : ∀ id, OnPath (s.joined header).parentOf s.nextId id ↔
      id = s.nextId ∨ ∃ tipId, s.tipId = some tipId ∧ OnPath s.parentOf tipId id := by
    intro id
    cases htip : s.tipId with
    | none =>
      rw [onPath_root (by rw [hj.parentOf_new, hparent, htip])]
      simp
    | some tipId =>
      obtain ⟨tip, htipLookup⟩ := hc.stored htip
      rw [hgrown.onPath_leaf (by rw [hj.parentOf_new, hparent, htip]) (hl.ne_nextId htipLookup)]
      simp
  have hactive : ∀ {id}, id ∈ (s.storeTip (s.place header)).headers →
      ((s.storeTip (s.place header)).Active id ↔
        OnPath (s.joined header).parentOf s.nextId id) := by
    intro id hmem
    rw [active_storeTip, hpath, or_comm]
    refine or_congr_right' fun hid => ?_
    obtain ⟨h, hlookup⟩ := lookup_of_mem (htree.mem.mp hmem)
    rcases lookup_joined_cases hlookup with ⟨heq, -⟩ | ⟨-, hlookup'⟩
    · exact absurd heq hid
    · rw [active_iff hlookup', hc.active hlookup']
  refine Chosen.newTip ⟨htree.headers, htree.hashToId, htree.nextId⟩ rfl
    hmore hactive (fun hlookup => marked_storeTip hc hlookup) ?_
  -- the new height is above those of the active headers
  have hkeys := hc.byHeight.congr_key (s.joined header).heightOf fun id hact => by
    obtain ⟨h, hlookup, -⟩ := hact
    exact heightOf_joined hl hlookup
  have hindex := hkeys.insert (n := s.nextId) fun id hact => by
    obtain ⟨h, hlookup, hflag⟩ := hact
    obtain ⟨tipId, htip, hon⟩ := (hc.active hlookup).mp hflag
    obtain ⟨tip, htipLookup⟩ := hc.stored htip
    have hle := (hl.ranked.onPath hon).2
    have hheight := hj.height (hparent.trans htip) htipLookup
    rw [heightOf_joined hl hlookup, heightOf_nextId, hheight]
    rw [heightOf_eq htipLookup] at hle
    omega
  have hheightToId : (s.grownTip header).heightToId =
      s.heightToId.insert ((s.joined header).heightOf s.nextId) s.nextId := by
    rw [heightOf_nextId]
    exact heightToId_storeTip s header
  have hheightOf : (s.grownTip header).heightOf = (s.joined header).heightOf := htree.heightOf
  rw [hheightToId, hheightOf]
  exact hindex.congr (active_storeTip s (s.place header))

/-- The state with a new tip after its reorganization. -/
def reorganized (s : Inner) (header : LiveBlockHeader) (oldTipId a : Nat) : Inner :=
  { markAll activate ((s.joined header).between s.nextId a)
      (markAll deactivate ((s.joined header).between oldTipId a) (s.storeTip (s.place header))) with
    tipId := some s.nextId }

theorem active_markAll {mark : Nat → LiveBlockHeader → Inner → Inner} {flag : Bool}
    (hm : Marks mark flag) {ids : List Nat} (hmem : id ∈ s.headers) :
    (markAll mark ids s).Active id ↔ if id ∈ ids then flag = true else s.Active id := by
  obtain ⟨h, hlookup⟩ := lookup_of_mem hmem
  rw [Active, hm.lookup_markAll, active_iff hlookup, hlookup]
  split <;> simp

theorem Chosen.reorg (hc : s.Chosen) (hl : s.Linked) (hj : s.Joins header) {oldTipId a : Nat}
    (htip : s.tipId = some oldTipId)
    (hmore : ∀ {id h}, s.headers.lookup id = some h → h.chainWork < (s.place header).chainWork)
    (hdeepest : (s.joined header).Deepest oldTipId s.nextId a) :
    (s.reorganized header oldTipId a).Chosen := by
  have hl' := hj.linked hl
  have hgrown := hj.grown hl
  obtain ⟨tip, htipLookup⟩ := hc.stored htip
  have hne := hl.ne_nextId htipLookup
  have hold : ∀ {x}, x ∈ (s.joined header).between oldTipId a ↔
      OnPath (s.joined header).parentOf oldTipId x ∧ ¬OnPath (s.joined header).parentOf a x :=
    hl'.mem_between hdeepest.left
  have hnew : ∀ {x}, x ∈ (s.joined header).between s.nextId a ↔
      OnPath (s.joined header).parentOf s.nextId x ∧ ¬OnPath (s.joined header).parentOf a x :=
    hl'.mem_between hdeepest.right
  -- the new header is on no path but its own
  have hnotAbove : ¬OnPath (s.joined header).parentOf a s.nextId := fun h =>
    hgrown.not_onPath hne (hdeepest.left.trans h)
  have hnIn : s.nextId ∈ (s.joined header).between s.nextId a :=
    hnew.mpr ⟨.refl _, hnotAbove⟩
  have htree := sameTree_storeTip s header
  have htree1 := htree.trans
    (marks_deactivate.sameTree_markAll ((s.joined header).between oldTipId a) _)
  have htree2 := htree1.trans
    (marks_activate.sameTree_markAll ((s.joined header).between s.nextId a) _)
  have hactiveOld : ∀ {id}, s.Active id ↔ OnPath (s.joined header).parentOf oldTipId id := by
    intro id
    rw [hgrown.onPath hne]
    exact hc.active_onPath hl htip id
  have hflags : ∀ {id}, id ∈ (s.joined header).headers →
      ((s.reorganized header oldTipId a).Active id ↔
        s.Active id ∧ id ∉ (s.joined header).between oldTipId a ∨
          id ∈ (s.joined header).between s.nextId a) := by
    intro id hmem
    have hact : (s.reorganized header oldTipId a).Active id ↔ _ :=
      active_markAll marks_activate (htree1.mem.mpr hmem)
    rw [hact, active_markAll marks_deactivate (htree.mem.mpr hmem), active_storeTip]
    by_cases hin : id ∈ (s.joined header).between s.nextId a
    · simp [hin]
    · by_cases hout : id ∈ (s.joined header).between oldTipId a
      · simp [hin, hout]
      · have hid : id ≠ s.nextId := fun heq => hin (heq ▸ hnIn)
        simp [hin, hout, hid]
  have hactive : ∀ {id}, id ∈ (s.joined header).headers →
      ((s.reorganized header oldTipId a).Active id ↔
        OnPath (s.joined header).parentOf s.nextId id) := by
    intro id hmem
    rw [hflags hmem, hactiveOld, hold, hnew]
    constructor
    · rintro (⟨hpath, hkept⟩ | ⟨hpath, -⟩)
      · exact hdeepest.right.trans (not_not.mp fun h => hkept ⟨hpath, h⟩)
      · exact hpath
    · intro hpath
      by_cases habove : OnPath (s.joined header).parentOf a id
      · exact .inl ⟨hdeepest.left.trans habove, fun h => h.2 habove⟩
      · exact .inr ⟨hpath, habove⟩
  refine Chosen.newTip ⟨htree2.headers, htree2.hashToId, htree2.nextId⟩ rfl hmore
    (fun hmem => hactive (htree2.mem.mp hmem)) (fun {id h} hlookup => ?_) ?_
  · have hlookup' : (markAll activate ((s.joined header).between s.nextId a) (markAll deactivate
        ((s.joined header).between oldTipId a) (s.storeTip (s.place header)))).headers.lookup id =
        some h := hlookup
    rw [marks_activate.lookup_markAll, marks_deactivate.lookup_markAll] at hlookup'
    obtain ⟨h1, hlookup1⟩ := lookup_of_mem (htree.mem.mpr (htree2.mem.mp (mem_of_lookup hlookup)))
    have hflag : h.isChainTip = h1.isChainTip := by
      rw [hlookup1] at hlookup'
      split at hlookup' <;> split at hlookup' <;> cases hlookup' <;> rfl
    rw [hflag]
    exact marked_storeTip hc hlookup1
  · have hstoredOld : ∀ id ∈ (s.joined header).between oldTipId a, id ∈ (s.joined header).headers :=
      fun id hid => hl'.onPath_stored
        (mem_of_lookup (by rw [lookup_joined, if_neg hne]; exact htipLookup)) (hold.mp hid).1
    have hmemNew : s.nextId ∈ (s.joined header).headers :=
      mem_of_lookup (h := s.place header) (by rw [lookup_joined, if_pos rfl])
    have hstoredNew : ∀ id ∈ (s.joined header).between s.nextId a, id ∈ (s.joined header).headers :=
      fun id hid => hl'.onPath_stored hmemNew (hnew.mp hid).1
    have hkeys := hc.byHeight.congr_key (s.joined header).heightOf fun id hact => by
      obtain ⟨h, hlookup, -⟩ := hact
      exact heightOf_joined hl hlookup
    have hindex := hkeys.rebuilt (s.reorganized header oldTipId a).Active hnIn
      (fun id hid => hactiveOld.mpr (hold.mp hid).1)
      (fun id => ?_) ?_
    · have hheights : (s.reorganized header oldTipId a).heightToId = _ :=
        heightToId_activateAll ((s.joined header).between s.nextId a) fun id hid =>
          htree1.mem.mpr (hstoredNew id hid)
      rw [heightToId_deactivateAll _ fun id hid => htree.mem.mpr (hstoredOld id hid),
        heightToId_storeTip, htree1.heightOf, htree.heightOf, ← heightOf_nextId s header] at hheights
      have hheightOf : (s.reorganized header oldTipId a).heightOf = (s.joined header).heightOf :=
        htree2.heightOf
      rw [hheights, hheightOf]
      exact hindex
    · by_cases hmem : id ∈ (s.joined header).headers
      · exact hflags hmem
      · constructor
        · rintro ⟨h, hlookup, -⟩
          exact absurd (htree2.mem.mp (mem_of_lookup hlookup)) hmem
        · rintro (⟨hact, -⟩ | hin)
          · exact absurd (hl'.onPath_stored
              (mem_of_lookup (by rw [lookup_joined, if_neg hne]; exact htipLookup))
              (hactiveOld.mp hact)) hmem
          · exact absurd (hstoredNew id hin) hmem
    · intro i j hi hj' heq
      obtain ⟨hi', hlookupi, -⟩ := id hi
      obtain ⟨hj'', hlookupj, -⟩ := id hj'
      exact hl'.ranked.unique ((hactive (htree2.mem.mp (mem_of_lookup hlookupi))).mp hi)
        ((hactive (htree2.mem.mp (mem_of_lookup hlookupj))).mp hj') heq

/-! ## One insertion -/

/-- If the header takes the place of a tip that is not its parent, the two have a common ancestor
within the threshold. -/
def Reachable (reorgHeightThreshold : Nat) (s : Inner) (header : LiveBlockHeader) : Prop :=
  ∀ tipId tip, s.tipId = some tipId → s.headers.lookup tipId = some tip →
    isMoreWork (s.place header).chainWork tip.chainWork = true → header.previousHash ≠ tip.hash →
    ∃ above a, s.hashToId.lookup header.previousHash = some above ∧
      OnPath s.parentOf tipId a ∧ OnPath s.parentOf above a ∧
      min tip.height header.height ≤ s.heightOf a + reorgHeightThreshold

/-- What the result says of an insertion: the deactivated headers are those that were active and
are not any more, each once, and the prior tip is the tip that there was. -/
structure Reports (s : Inner) (r : InsertHeaderResult) (s' : Inner) : Prop where
  deactivated : ∃ ids : List Nat, ids.Nodup ∧ (∀ id, id ∈ ids ↔ s.Active id ∧ ¬s'.Active id) ∧
    r.deactivatedHeaders = ids.filterMap fun id => (s.headers.lookup id).map (·.toBlockHeader)
  depth : r.reorgDepth = r.deactivatedHeaders.length
  priorTip : r.deactivatedHeaders ≠ [] → r.priorTip = s.findChainTipHeader.map (·.toBlockHeader)

/-- Nothing is deactivated and nothing is reported. -/
theorem Reports.quiet {r : InsertHeaderResult} (hactive : ∀ id, s.Active id → s'.Active id)
    (hdepth : r.reorgDepth = 0) (hlist : r.deactivatedHeaders = []) : Reports s r s' where
  deactivated := by
    refine ⟨[], List.nodup_nil, fun id => ?_, hlist⟩
    simp only [List.not_mem_nil, false_iff, not_and, not_not]
    exact hactive id
  depth := by rw [hdepth, hlist, List.length_nil]
  priorTip hne := absurd hlist hne

theorem insertHeader_dupe (reorgHeightThreshold : Nat) (h : header.hash ∈ s.hashToId) :
    insertHeader reorgHeightThreshold header s = some ({ dupe := true }, s) := by
  rw [insertHeader, if_pos h]

theorem Joins.not_mem (hj : s.Joins header) : header.hash ∉ s.hashToId := by
  rw [← AList.lookup_eq_none]
  exact hj.new

theorem mem_joined (hmem : id ∈ s.headers) : id ∈ (s.joined header).headers := by
  rw [joined, storeFork, AList.mem_insert]
  exact .inr hmem

theorem Reachable.meets {reorgHeightThreshold tipId : Nat} {tip : LiveBlockHeader} (hl : s.Linked)
    (hj : s.Joins header) (hreach : s.Reachable reorgHeightThreshold header)
    (htip : s.tipId = some tipId) (htipLookup : s.headers.lookup tipId = some tip)
    (hmore : isMoreWork (s.place header).chainWork tip.chainWork = true)
    (hreorg : header.previousHash ≠ tip.hash) :
    (s.joined header).Meets reorgHeightThreshold tipId s.nextId := by
  obtain ⟨above, a, hparent, htipPath, hpath, hmin⟩ :=
    hreach tipId tip htip htipLookup hmore hreorg
  have hgrown := hj.grown hl
  obtain ⟨q, hq, -⟩ := (hl.hashed _ _).mp hparent
  have hstored := hl.onPath_stored (mem_of_lookup htipLookup) htipPath
  obtain ⟨ha, hlookupA⟩ := lookup_of_mem hstored
  refine ⟨a, (hgrown.onPath (hl.ne_nextId htipLookup)).mpr htipPath, ?_, ?_⟩
  · exact (hgrown.onPath_leaf (hj.parentOf_new.trans hparent) (hl.ne_nextId hq)).mpr (.inr hpath)
  · rw [heightOf_joined hl htipLookup, heightOf_joined hl hlookupA, heightOf_nextId,
      heightOf_eq htipLookup]
    exact hmin

theorem bulk_markAll (mark : Nat → LiveBlockHeader → Inner → Inner)
    (hbulk : ∀ id h s, (mark id h s).bulk = s.bulk) (ids : List Nat) (s : Inner) :
    (markAll mark ids s).bulk = s.bulk := by
  induction ids generalizing s with
  | nil => rfl
  | cons id rest ih =>
    rw [markAll, List.foldl_cons]
    cases hlookup : s.headers.lookup id with
    | none => exact ih s
    | some h => exact (ih (mark id h s)).trans (hbulk id h s)

/-- The deactivated headers as they were before. -/
theorem passed_eq (hl : s.Linked) {ids : List Nat} (hstored : ∀ id ∈ ids, id ∈ s.headers) :
    (ids.filterMap (s.storeTip header).headers.lookup).map (·.toBlockHeader) =
      ids.filterMap fun id => (s.headers.lookup id).map (·.toBlockHeader) := by
  rw [List.map_filterMap]
  apply List.filterMap_congr
  intro id hid
  obtain ⟨h, hlookup⟩ := lookup_of_mem (hstored id hid)
  rw [lookup_storeTip, if_neg (hl.ne_nextId hlookup), hlookup]
  split <;> rfl

theorem length_filterMap_lookup {ids : List Nat} (hstored : ∀ id ∈ ids, id ∈ s.headers) :
    (ids.filterMap fun id => (s.headers.lookup id).map (·.toBlockHeader)).length = ids.length := by
  have hlen := filterMap_lookup_length hstored
  rw [← List.length_map (f := LiveBlockHeader.toBlockHeader), List.map_filterMap] at hlen
  exact hlen

theorem sameTree_grownTip (s : Inner) (header : LiveBlockHeader) :
    (s.joined header).SameTree (s.grownTip header) :=
  ⟨(sameTree_storeTip s header).headers, (sameTree_storeTip s header).hashToId,
    (sameTree_storeTip s header).nextId⟩

theorem sameTree_reorganized (s : Inner) (header : LiveBlockHeader) (oldTipId a : Nat) :
    (s.joined header).SameTree (s.reorganized header oldTipId a) :=
  have htree := (sameTree_storeTip s header).trans ((marks_deactivate.sameTree_markAll
    ((s.joined header).between oldTipId a) _).trans
    (marks_activate.sameTree_markAll ((s.joined header).between s.nextId a) _))
  ⟨htree.headers, htree.hashToId, htree.nextId⟩

/-- The headers between the old tip and the deepest common one are those that a reorganization
deactivates. -/
theorem Chosen.between_iff (hc : s.Chosen) (hl : s.Linked) (hj : s.Joins header) {oldTipId a : Nat}
    (htip : s.tipId = some oldTipId) (hdeepest : (s.joined header).Deepest oldTipId s.nextId a)
    (hchosen : (s.reorganized header oldTipId a).Chosen) (id : Nat) :
    id ∈ (s.joined header).between oldTipId a ↔
      s.Active id ∧ ¬(s.reorganized header oldTipId a).Active id := by
  obtain ⟨tip, htipLookup⟩ := hc.stored htip
  have htree := sameTree_reorganized s header oldTipId a
  have hl' := hj.linked hl
  rw [hl'.mem_between hdeepest.left, hc.active_onPath hl htip,
    ← (hj.grown hl).onPath (hl.ne_nextId htipLookup),
    hchosen.active_onPath (htree.linked hl') rfl, htree.parentOf]
  constructor
  · rintro ⟨hold, hnot⟩
    exact ⟨hold, fun hnew => hnot (hdeepest.below id hold hnew)⟩
  · rintro ⟨hold, hnot⟩
    exact ⟨hold, fun habove => hnot (hdeepest.right.trans habove)⟩

/-- An insertion that fits returns, keeps the tree and the best chain, and reports what it did. -/
theorem Chosen.insertHeader (hc : s.Chosen) (hl : s.Linked) (hj : s.Joins header)
    {reorgHeightThreshold : Nat} (hreach : s.Reachable reorgHeightThreshold header)
    (hinactive : header.isActive = false) (hunmarked : header.isChainTip = false) :
    ∃ r s', insertHeader reorgHeightThreshold header s = some (r, s') ∧
      (s.joined header).SameTree s' ∧ s'.Chosen ∧ s'.bulk = s.bulk ∧ Reports s r s' := by
  have hbulk : (s.storeTip (s.place header)).bulk = s.bulk := by
    rw [storeTip, storeFork, (unmarkTip_rest s).2.2.2]
  have hkept : ∀ id, s.Active id → (s.grownTip header).Active id :=
    fun id hact => (active_storeTip s (s.place header) id).mpr (.inl hact)
  rw [Inner.insertHeader, if_neg hj.not_mem]
  dsimp only
  cases htip : s.tipId with
  | none =>
    have hempty : ∀ {id h}, s.headers.lookup id ≠ some h := by
      intro id h hlookup
      obtain ⟨tipId, heq⟩ := hc.tipped hlookup
      rw [htip] at heq
      cases heq
    refine ⟨_, s.grownTip header, rfl, sameTree_grownTip s header, hc.grow hl hj
      (fun hlookup => absurd hlookup hempty) ?_, hbulk, .quiet hkept rfl rfl⟩
    cases hparent : s.hashToId.lookup header.previousHash with
    | none => exact htip.symm
    | some above =>
      obtain ⟨q, hq, -⟩ := (hl.hashed _ _).mp hparent
      exact absurd hq hempty
  | some tipId =>
    obtain ⟨tip, htipLookup⟩ := hc.stored htip
    have hfind : s.findChainTipHeader = some tip := by
      rw [findChainTipHeader, htip, Option.bind_some, htipLookup]
    simp only [hfind]
    split
    next hmore =>
      have hmost : ∀ {id h}, s.headers.lookup id = some h →
          h.chainWork < (s.place header).chainWork := by
        intro id h hlookup
        have hle := hc.most htip htipLookup hlookup
        rw [← Bool.not_eq_true, isMoreWork_iff, Nat.not_lt] at hle
        exact Nat.lt_of_le_of_lt hle (isMoreWork_iff.mp hmore)
      rw [place_previousHash]
      split
      next hreorg =>
        have htree := sameTree_storeTip s header
        have hl' := hj.linked hl
        have hl1 := htree.linked hl'
        have htipMem := mem_of_lookup htipLookup
        have hold := htree.mem.mpr (mem_joined htipMem)
        have hnew : s.nextId ∈ (s.storeTip (s.place header)).headers :=
          htree.mem.mpr (mem_of_lookup (h := s.place header) (by rw [lookup_joined, if_pos rfl]))
        have hmeets := hreach.meets hl hj htip htipLookup hmore hreorg
        rcases hl1.handleReorg reorgHeightThreshold hold hnew with ⟨-, hnot⟩ | ⟨a, hdeepest, heq⟩
        · rw [Meets, htree.parentOf, htree.heightOf] at hnot
          exact absurd hmeets hnot
        · have hdeepest' : (s.joined header).Deepest tipId s.nextId a := by
            obtain ⟨h1, h2, h3⟩ := hdeepest
            rw [htree.parentOf] at h1 h2 h3
            exact ⟨h1, h2, h3⟩
          have hbetween : (s.storeTip (s.place header)).between = (s.joined header).between := by
            funext i j
            rw [between, between, htree.parentOf, htree.heightOf]
          have hstored : ∀ id ∈ (s.joined header).between tipId a, id ∈ s.headers := by
            intro id hid
            exact hl.onPath_stored htipMem (((hj.grown hl).onPath (hl.ne_nextId htipLookup)).mp
              ((hl'.mem_between hdeepest'.left).mp hid).1)
          rw [heq, hbetween, passed_eq hl hstored]
          have hchosen := hc.reorg hl hj htip hmost hdeepest'
          refine ⟨_, s.reorganized header tipId a, rfl, sameTree_reorganized s header tipId a,
            hchosen, ?_, ⟨⟨(s.joined header).between tipId a, ?_,
              hc.between_iff hl hj htip hdeepest' hchosen, rfl⟩, ?_, fun _ => ?_⟩⟩
          · exact (bulk_markAll activate (fun _ _ _ => rfl) _ _).trans
              ((bulk_markAll deactivate (fun _ _ _ => rfl) _ _).trans hbulk)
          · exact hl'.ranked.nodup_segment (hl'.ranked.onPath hdeepest'.left).1
          · exact (length_filterMap_lookup hstored).symm
          · rw [hfind]
            rfl
      next hextends =>
        refine ⟨_, s.grownTip header, rfl, sameTree_grownTip s header, hc.grow hl hj hmost ?_,
          hbulk, .quiet hkept rfl rfl⟩
        rw [not_not.mp hextends, hl.hash_stored htipLookup, htip]
    next hless =>
      refine ⟨_, s.joined header, rfl, .refl _, hc.fork hl hj htip htipLookup
        (Bool.not_eq_true _ ▸ hless) hinactive hunmarked, rfl, .quiet (fun id hact => ?_) rfl rfl⟩
      obtain ⟨h, hlookup, hflag⟩ := hact
      exact ⟨h, by rw [lookup_joined, if_neg (hl.ne_nextId hlookup)]; exact hlookup, hflag⟩

end Inner

/-! ## Runs of insertions -/

open WalletToolbox.Chaintracks.Inner

/-- A header's parent is stored or the zero hash, and its height follows that of its parent. -/
def Inner.ParentKnown (s : Inner) (header : LiveBlockHeader) : Prop :=
  (header.previousHash ∈ s.hashToId ∨ header.previousHash = zeroHash) ∧
    ∀ parent ∈ s.findLiveHeaderForBlockHash header.previousHash, header.height = parent.height + 1

instance (s : Inner) (header : LiveBlockHeader) : Decidable (s.ParentKnown header) :=
  inferInstanceAs (Decidable (_ ∧ _))

/-- One `insert_header` after the other on an empty MemoryStorage. -/
def memorySystem (reorgHeightThreshold : Nat) : System Inner LiveBlockHeader where
  init := {}
  Enabled := ParentKnown
  next header s := ((insertHeader reorgHeightThreshold header s).map Prod.snd).getD s

instance (reorgHeightThreshold : Nat) (s : Inner) (header : LiveBlockHeader) :
    Decidable ((memorySystem reorgHeightThreshold).Enabled s header) :=
  inferInstanceAs (Decidable (s.ParentKnown header))

/-- A duplicate, or a header that comes without marks or a link of its own, whose hash is not the
zero hash, and that does not take the tip over from a branch out of reach. -/
def Inner.Orderly (reorgHeightThreshold : Nat) (s : Inner) (header : LiveBlockHeader) : Prop :=
  header.hash ∈ s.hashToId ∨
    (header.isActive = false ∧ header.isChainTip = false ∧
      (header.previousHash ∉ s.hashToId → header.previousHeaderId = none) ∧
      header.hash ≠ zeroHash ∧ s.Reachable reorgHeightThreshold header)

/-- The previous hash of a root says that there is no parent, and is no header's own hash. -/
structure Inner.Rooted (noParent : String → Prop) (s : Inner) : Prop where
  linked : s.Linked
  hashes : ∀ hash ∈ s.hashToId, ¬noParent hash
  roots : ∀ {id h}, s.headers.lookup id = some h →
    h.previousHash ∈ s.hashToId ∨ noParent h.previousHash

section Rooted

variable {noParent : String → Prop} {s s' : Inner} {header : LiveBlockHeader}

theorem Inner.Rooted.joins (hr : s.Rooted noParent) (hnew : header.hash ∉ s.hashToId)
    (hknown : header.previousHash ∈ s.hashToId ∨ noParent header.previousHash)
    (hheight : ∀ parent ∈ s.findLiveHeaderForBlockHash header.previousHash,
      header.height = parent.height + 1)
    (hlink : header.previousHash ∉ s.hashToId → header.previousHeaderId = none)
    (hhash : ¬noParent header.hash) : s.Joins header where
  new := AList.lookup_eq_none.mpr hnew
  awaited hlookup heq := by
    rcases hr.roots hlookup with hmem | hprev
    · exact hnew (heq ▸ hmem)
    · exact hhash (heq ▸ hprev)
  notOwn heq := by
    rcases hknown with hmem | hprev
    · exact hnew (heq ▸ hmem)
    · exact hhash (heq ▸ hprev)
  height habove hq := hheight _ (by
    rw [findLiveHeaderForBlockHash, habove, Option.bind_some, hq]
    rfl)
  root hnone := hlink (AList.lookup_eq_none.mp hnone)

theorem Inner.Rooted.next (hr : s.Rooted noParent) (hj : s.Joins header)
    (hknown : header.previousHash ∈ s.hashToId ∨ noParent header.previousHash)
    (hhash : ¬noParent header.hash) (htree : (s.joined header).SameTree s') :
    s'.Rooted noParent := by
  have hindex : s'.hashToId = s.hashToId.insert header.hash s.nextId :=
    htree.hashToId.trans (hashToId_joined s header)
  refine ⟨htree.linked (hj.linked hr.linked), fun hash => ?_, fun {id h} hlookup => ?_⟩
  · rw [hindex, AList.mem_insert]
    rintro (rfl | hmem)
    · exact hhash
    · exact hr.hashes hash hmem
  · rw [hindex, AList.mem_insert]
    obtain ⟨h', hlookup', hunmarked⟩ := htree.lookup' hlookup
    have hprevious : h.previousHash = h'.previousHash := congrArg (·.previousHash) hunmarked
    rw [hprevious]
    rcases lookup_joined_cases hlookup' with ⟨-, rfl⟩ | ⟨-, hstored⟩
    · rw [place_previousHash]
      exact hknown.imp_left .inr
    · exact (hr.roots hstored).imp_left .inr

theorem rooted_empty (noParent : String → Prop) : ({} : Inner).Rooted noParent where
  linked := linked_empty
  hashes hash hmem := by simp at hmem
  roots hlookup := by simp at hlookup

end Rooted

/-- One step of a run returns and keeps the tree and the best chain. -/
theorem insertHeader_orderly {reorgHeightThreshold : Nat} {s : Inner} {header : LiveBlockHeader}
    (hr : s.Rooted (· = zeroHash)) (hc : s.Chosen) (hknown : s.ParentKnown header)
    (horderly : s.Orderly reorgHeightThreshold header) :
    ∃ r s', insertHeader reorgHeightThreshold header s = some (r, s') ∧
      s'.Rooted (· = zeroHash) ∧ s'.Chosen := by
  by_cases hdupe : header.hash ∈ s.hashToId
  · exact ⟨_, s, insertHeader_dupe _ hdupe, hr, hc⟩
  · obtain ⟨hinactive, hunmarked, hlink, hzero, hreach⟩ := horderly.resolve_left hdupe
    have hj := hr.joins hdupe hknown.1 hknown.2 hlink hzero
    obtain ⟨r, s', heq, htree, hchosen, -⟩ := hc.insertHeader hr.linked hj hreach hinactive hunmarked
    exact ⟨r, s', heq, hr.next hj hknown.1 hzero htree, hchosen⟩

theorem reaches_rooted {reorgHeightThreshold : Nat} {s : Inner}
    (h : (memorySystem reorgHeightThreshold).Reaches (Orderly reorgHeightThreshold) s) :
    s.Rooted (· = zeroHash) ∧ s.Chosen := by
  refine h.inv (I := fun s => s.Rooted (· = zeroHash) ∧ s.Chosen)
    ⟨rooted_empty _, chosen_empty⟩ ?_
  rintro s header ⟨hr, hc⟩ hknown horderly
  obtain ⟨r, s', heq, hr', hc'⟩ := insertHeader_orderly hr hc hknown horderly
  have hnext : (memorySystem reorgHeightThreshold).next header s = s' := by
    simp only [memorySystem, heq, Option.map_some, Option.getD_some]
  rw [hnext]
  exact ⟨hr', hc'⟩

/-- In every run of orderly insertions each of them returns, and there is one best active chain after
it. -/
theorem single_best_chain {reorgHeightThreshold : Nat} {s : Inner}
    (h : (memorySystem reorgHeightThreshold).Reaches (Orderly reorgHeightThreshold) s) :
    s.SingleBestChain ∧
      ∀ header, s.ParentKnown header → s.Orderly reorgHeightThreshold header →
        (insertHeader reorgHeightThreshold header s).isSome := by
  obtain ⟨hr, hc⟩ := reaches_rooted h
  refine ⟨hc.toSingleBestChain, fun header hknown horderly => ?_⟩
  obtain ⟨r, s', heq, -⟩ := insertHeader_orderly hr hc hknown horderly
  rw [heq]
  rfl

/-- A header of the lowest difficulty, as it is handed to storage. -/
def forkHeader (height : Nat) (previousHash hash : String) : LiveBlockHeader where
  version := 1
  previousHash := previousHash
  merkleRoot := "merkle_" ++ hash
  time := 0
  bits := 0x207fffff
  nonce := 0
  height := height
  hash := hash
  chainWork := 0
  isChainTip := false
  isActive := false
  headerId := none
  previousHeaderId := none

/-- A chain of two blocks, and a branch from the first header that is one block longer. -/
def forkHeaders : List LiveBlockHeader :=
  [forkHeader 0 zeroHash "g", forkHeader 1 "g" "a1", forkHeader 2 "a1" "a2",
    forkHeader 1 "g" "b1", forkHeader 2 "b1" "b2", forkHeader 3 "b2" "b3"]

/-- A header that does not move the tip to another branch. -/
def Inner.Stays (s : Inner) (header : LiveBlockHeader) : Prop :=
  ∀ tip ∈ s.findChainTipHeader,
    isMoreWork (s.place header).chainWork tip.chainWork = false ∨ header.previousHash = tip.hash

instance (s : Inner) (header : LiveBlockHeader) : Decidable (s.Stays header) :=
  inferInstanceAs (Decidable (∀ _ ∈ _, _))

theorem Inner.Stays.reachable {s : Inner} {header : LiveBlockHeader} (h : s.Stays header)
    (reorgHeightThreshold : Nat) : s.Reachable reorgHeightThreshold header := by
  intro tipId tip htip htipLookup hmore hreorg
  have hfind : tip ∈ s.findChainTipHeader := by
    rw [findChainTipHeader, htip, Option.bind_some, htipLookup]
    rfl
  rcases h tip hfind with hless | hextends
  · rw [hless] at hmore
    cases hmore
  · exact absurd hextends hreorg

/-- One that also comes without marks. -/
def Inner.Quiet (s : Inner) (header : LiveBlockHeader) : Prop :=
  header.isActive = false ∧ header.isChainTip = false ∧ header.previousHeaderId = none ∧
    header.hash ≠ zeroHash ∧ s.Stays header

instance (s : Inner) (header : LiveBlockHeader) : Decidable (s.Quiet header) :=
  inferInstanceAs (Decidable (_ ∧ _))

theorem Inner.Quiet.orderly {s : Inner} {header : LiveBlockHeader} (h : s.Quiet header)
    (reorgHeightThreshold : Nat) : s.Orderly reorgHeightThreshold header :=
  .inr ⟨h.1, h.2.1, fun _ => h.2.2.1, h.2.2.2.1, h.2.2.2.2.reachable reorgHeightThreshold⟩

/-- The state before the last header of the branch. -/
def beforeFork : Inner := (memorySystem 2).after {} (forkHeaders.take 5)

theorem beforeFork_reachable : beforeFork.Reachable 2 (forkHeader 3 "b2" "b3") := by
  have hfacts : beforeFork.tipId = some 3 ∧ beforeFork.parentOf 3 = some 2 ∧
      beforeFork.parentOf 2 = some 1 ∧ beforeFork.hashToId.lookup "b2" = some 5 ∧
      beforeFork.parentOf 5 = some 4 ∧ beforeFork.parentOf 4 = some 1 ∧
      (beforeFork.headers.lookup 3).map (·.height) = some 2 := by
    decide +kernel
  obtain ⟨htip, h32, h21, hb2, h54, h41, hheight⟩ := hfacts
  intro tipId tip htipId htipLookup _ _
  rw [htip] at htipId
  cases htipId
  rw [htipLookup, Option.map_some, Option.some_inj] at hheight
  refine ⟨5, 1, hb2, (OnPath.single h32).trans (.single h21),
    (OnPath.single h54).trans (.single h41), ?_⟩
  rw [hheight]
  exact Nat.le_trans (Nat.min_le_left _ _) (Nat.le_add_left _ _)

/-- Where the branch is within the threshold, the tip moves to it and so do the marks. -/
theorem single_best_chain_fork :
    (memorySystem 2).Reaches (Orderly 2) ((memorySystem 2).next (forkHeader 3 "b2" "b3") beforeFork) ∧
      ((memorySystem 2).next (forkHeader 3 "b2" "b3") beforeFork).SingleBestChain := by
  have hquiet : (memorySystem 2).Allows Quiet {} (forkHeaders.take 5) ∧
      beforeFork.ParentKnown (forkHeader 3 "b2" "b3") := by
    decide +kernel
  have hbefore : (memorySystem 2).Reaches (Orderly 2) beforeFork :=
    (System.Reaches.after .init hquiet.1).mono fun s header h => h.orderly 2
  have hreach := hbefore.step hquiet.2
    (.inr ⟨rfl, rfl, fun _ => rfl, by decide +kernel, beforeFork_reachable⟩)
  exact ⟨hreach, (single_best_chain hreach).1⟩

/-- Where it is not, the tip moves and the old branch stays active. -/
theorem deep_branch_not_activated :
    ¬∀ reorgHeightThreshold s,
      (memorySystem reorgHeightThreshold).Reaches (fun _ _ => True) s → s.SingleBestChain := by
  intro h
  have hreach : (memorySystem 1).Reaches (fun _ _ => True) ((memorySystem 1).after {} forkHeaders) :=
    System.Reaches.after .init (by decide +kernel)
  have hbest := h 1 _ hreach
  have hfacts : ((memorySystem 1).after {} forkHeaders).tipId = some 6 ∧
      ((memorySystem 1).after {} forkHeaders).parentOf 6 = some 5 ∧
      (((memorySystem 1).after {} forkHeaders).headers.lookup 5).map (·.isActive) = some false := by
    decide +kernel
  obtain ⟨htip, hparent, hinactive⟩ := hfacts
  obtain ⟨b2, hlookup, hflag⟩ := Option.map_eq_some_iff.mp hinactive
  have hactive := (hbest.active hlookup).mpr ⟨6, htip, .single hparent⟩
  rw [hflag] at hactive
  cases hactive

end WalletToolbox.Chaintracks
