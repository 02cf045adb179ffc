import WalletToolbox.Laws.BestChain

/-! # Fork choice does not depend on the order of arrival

The headers of a tree are inserted in two orders, each parent before its children.
What storage holds at the end depends on the set of headers only: the work of each is that of its
branch, the tip is the header whose branch has most, and the active headers are its branch. -/

namespace WalletToolbox.Chaintracks

open WalletToolbox.Lib WalletToolbox.Lib.Forest WalletToolbox.Chaintracks.Inner

/-! ## Trees of headers -/

/-- Headers as they are handed to storage, with different hashes and at most one root, in which every
height follows that of the parent. -/
structure HeaderTree (headers : List LiveBlockHeader) : Prop where
  hashes : (headers.map (·.hash)).Nodup
  unmarked : ∀ x ∈ headers, x.isActive = false ∧ x.isChainTip = false
  unlinked : ∀ x ∈ headers, (∀ y ∈ headers, y.hash ≠ x.previousHash) → x.previousHeaderId = none
  heights : ∀ x ∈ headers, ∀ y ∈ headers, y.hash = x.previousHash → x.height = y.height + 1
  oneRoot : ∀ x ∈ headers, ∀ y ∈ headers, (∀ z ∈ headers, z.hash ≠ x.previousHash) →
    (∀ z ∈ headers, z.hash ≠ y.previousHash) → x = y

/-- `y` is on the branch that ends with `x`. -/
def OnBranch (headers : List LiveBlockHeader) (x y : LiveBlockHeader) : Prop :=
  Relation.ReflTransGen (fun child parent => parent ∈ headers ∧ parent.hash = child.previousHash)
    x y

/-- The cumulative work of the branch that ends with a header. -/
inductive BranchWork (headers : List LiveBlockHeader) : LiveBlockHeader → Nat → Prop
  | root {x : LiveBlockHeader} (mem : x ∈ headers) (none : ∀ y ∈ headers, y.hash ≠ x.previousHash) :
      BranchWork headers x (calculateWork x.bits)
  | child {x y : LiveBlockHeader} {work : Nat} (mem : x ∈ headers) (parent : y ∈ headers)
      (link : y.hash = x.previousHash) (below : BranchWork headers y work) :
      BranchWork headers x (addWork work (calculateWork x.bits))

/-- No two branches have equal work. Headers of one branch may: a block can add none. -/
def NoTies (headers : List LiveBlockHeader) : Prop :=
  ∀ x y work, BranchWork headers x work → BranchWork headers y work →
    OnBranch headers x y ∨ OnBranch headers y x

/-- Every parent comes before its children. -/
def ParentsFirst (order : List LiveBlockHeader) : Prop :=
  ∀ before x after, order = before ++ x :: after →
    ∀ y ∈ order, y.hash = x.previousHash → y ∈ before

/-- The insertion of one header after the other; `none` when one of them does not return. -/
def insertAll (reorgHeightThreshold : Nat) (order : List LiveBlockHeader) : Option Inner :=
  order.foldlM (fun s header => (insertHeader reorgHeightThreshold header s).map Prod.snd) {}

/-- The active headers, apart from their ids. -/
def Inner.activeBlocks (s : Inner) : Set BlockHeader :=
  { b | ∃ h ∈ s.values, h.isActive = true ∧ h.toBlockHeader = b }

variable {headers order order' : List LiveBlockHeader} {x y : LiveBlockHeader} {work work' : Nat}

theorem HeaderTree.eq_of_hash (ht : HeaderTree headers) (hx : x ∈ headers) (hy : y ∈ headers)
    (heq : x.hash = y.hash) : x = y :=
  List.inj_on_of_nodup_map ht.hashes hx hy heq

theorem HeaderTree.perm (ht : HeaderTree order) (hperm : order.Perm order') :
    HeaderTree order' where
  hashes := (hperm.map _).nodup_iff.mp ht.hashes
  unmarked x hx := ht.unmarked x (hperm.mem_iff.mpr hx)
  unlinked x hx hnone :=
    ht.unlinked x (hperm.mem_iff.mpr hx) fun y hy => hnone y (hperm.mem_iff.mp hy)
  heights x hx y hy := ht.heights x (hperm.mem_iff.mpr hx) y (hperm.mem_iff.mpr hy)
  oneRoot x hx y hy hnx hny := ht.oneRoot x (hperm.mem_iff.mpr hx) y (hperm.mem_iff.mpr hy)
    (fun z hz => hnx z (hperm.mem_iff.mp hz)) fun z hz => hny z (hperm.mem_iff.mp hz)

theorem BranchWork.mem (h : BranchWork headers x work) : x ∈ headers := by
  cases h <;> assumption

theorem BranchWork.unique (ht : HeaderTree headers) (h : BranchWork headers x work)
    (h' : BranchWork headers x work') : work = work' := by
  induction h generalizing work' with
  | root _ none =>
    cases h' with
    | root => rfl
    | child _ parent link => exact absurd link (none _ parent)
  | child _ parent link _ ih =>
    cases h' with
    | root _ none => exact absurd link (none _ parent)
    | child _ parent' link' below' =>
      obtain rfl := ht.eq_of_hash parent parent' (link.trans link'.symm)
      rw [ih below']

/-! ## What the insertions leave -/

/-- Storage holds the headers of a list, with the works of their branches in the tree. -/
structure Holds (headers : List LiveBlockHeader) (s : Inner) (inserted : List LiveBlockHeader) :
    Prop where
  linked : s.Linked
  chosen : s.Chosen
  bulk : s.bulk = ∅
  only : ∀ {id h}, s.headers.lookup id = some h → ∃ x ∈ inserted,
    h.toBlockHeader = x.toBlockHeader ∧ BranchWork headers x h.chainWork
  all : ∀ x ∈ inserted, ∃ id h, s.headers.lookup id = some h ∧ h.toBlockHeader = x.toBlockHeader

theorem holds_empty (headers : List LiveBlockHeader) : Holds headers {} [] where
  linked := linked_empty
  chosen := chosen_empty
  bulk := rfl
  only hlookup := by simp at hlookup
  all x hx := nomatch hx

variable {s s' : Inner} {inserted rest : List LiveBlockHeader}

/-- The header of the list behind a hash. -/
theorem Holds.of_hash (hh : Holds headers s inserted) {hash : String} {id : Nat}
    (hid : s.hashToId.lookup hash = some id) :
    ∃ x ∈ inserted, ∃ h, s.headers.lookup id = some h ∧ h.toBlockHeader = x.toBlockHeader ∧
      x.hash = hash ∧ BranchWork headers x h.chainWork := by
  obtain ⟨h, hlookup, hhash⟩ := (hh.linked.hashed _ _).mp hid
  obtain ⟨x, hx, hblock, hwork⟩ := hh.only hlookup
  exact ⟨x, hx, h, hlookup, hblock, (congrArg (·.hash) hblock).symm.trans hhash, hwork⟩

theorem Holds.hash_mem (hh : Holds headers s inserted) (hx : x ∈ inserted) :
    ∃ id h, s.hashToId.lookup x.hash = some id ∧ s.headers.lookup id = some h ∧
      h.toBlockHeader = x.toBlockHeader := by
  obtain ⟨id, h, hlookup, hblock⟩ := hh.all x hx
  have hhash : h.hash = x.hash := congrArg (·.hash) hblock
  exact ⟨id, h, hhash ▸ hh.linked.hash_stored hlookup, hlookup, hblock⟩

/-- A stored header has a stored parent if its parent is in the list. -/
theorem Holds.parent_iff (hh : Holds headers s inserted) {id : Nat} {h : LiveBlockHeader}
    (hlookup : s.headers.lookup id = some h) (hblock : h.toBlockHeader = x.toBlockHeader) :
    (∃ above, s.parentOf id = some above) ↔ ∃ y ∈ inserted, y.hash = x.previousHash := by
  have hprevious : h.previousHash = x.previousHash := congrArg (·.previousHash) hblock
  rw [parentOf_eq hlookup, hprevious]
  constructor
  · rintro ⟨above, habove⟩
    obtain ⟨y, hy, -, -, -, hhash, -⟩ := hh.of_hash habove
    exact ⟨y, hy, hhash⟩
  · rintro ⟨y, hy, hhash⟩
    obtain ⟨above, -, habove, -⟩ := hh.hash_mem hy
    exact ⟨above, hhash ▸ habove⟩

/-- The next header of an order with parents first joins the tree. -/
theorem Holds.joins (hh : Holds order s inserted) (ht : HeaderTree order)
    (hfirst : ParentsFirst order) (horder : order = inserted ++ x :: rest) : s.Joins x := by
  have hxmem : x ∈ order := by simp [horder]
  have hsub : ∀ y ∈ inserted, y ∈ order := fun y hy => by
    rw [horder]
    exact List.mem_append_left _ hy
  have hnotIn : x ∉ inserted := by
    intro hx
    have hnodup := List.Nodup.of_map _ ht.hashes
    rw [horder, List.nodup_append] at hnodup
    exact hnodup.2.2 x hx x List.mem_cons_self rfl
  -- a child that is already there came after its parent
  have hchild : ∀ y ∈ inserted, x.hash ≠ y.previousHash := by
    intro y hy heq
    obtain ⟨before, after, hsplit⟩ := List.append_of_mem hy
    have hbefore := hfirst before y (after ++ x :: rest) (by rw [horder, hsplit]; simp) x hxmem heq
    exact hnotIn (hsplit ▸ List.mem_append_left _ hbefore)
  constructor
  · cases hid : s.hashToId.lookup x.hash with
    | none => rfl
    | some id =>
      obtain ⟨y, hy, -, -, -, hhash, -⟩ := hh.of_hash hid
      exact absurd (ht.eq_of_hash (hsub y hy) hxmem hhash ▸ hy) hnotIn
  · intro id h hlookup heq
    obtain ⟨y, hy, hblock, -⟩ := hh.only hlookup
    exact hchild y hy (heq.symm.trans (congrArg (·.previousHash) hblock))
  · intro heq
    have hheight := ht.heights x hxmem x hxmem heq.symm
    omega
  · intro above q habove hq
    obtain ⟨y, hy, h, hlookup, hblock, hhash, -⟩ := hh.of_hash habove
    rw [hq] at hlookup
    cases hlookup
    rw [ht.heights x hxmem y (hsub y hy) hhash]
    exact congrArg (·.height + 1) hblock.symm
  · intro hnone
    refine ht.unlinked x hxmem fun y hy heq => ?_
    have hbefore := hfirst inserted x rest horder y hy heq
    obtain ⟨id, -, hid, -⟩ := hh.hash_mem hbefore
    rw [heq, hnone] at hid
    cases hid

/-- The root of a stored header is the root of the tree. -/
theorem Holds.root (hh : Holds order s inserted) (hfirst : ParentsFirst order)
    (horder : order = inserted ++ rest) {id : Nat} (hid : id ∈ s.headers) :
    ∃ r h y, OnPath s.parentOf id r ∧ s.headers.lookup r = some h ∧
      y ∈ inserted ∧ h.toBlockHeader = y.toBlockHeader ∧ ∀ z ∈ order, z.hash ≠ y.previousHash := by
  obtain ⟨r, hpath, hroot⟩ := hh.linked.ranked.exists_root id
  obtain ⟨h, hlookup⟩ := lookup_of_mem (hh.linked.onPath_stored hid hpath)
  obtain ⟨y, hy, hblock, -⟩ := hh.only hlookup
  refine ⟨r, h, y, hpath, hlookup, hy, hblock, fun z hz heq => ?_⟩
  obtain ⟨before, after, hsplit⟩ := List.append_of_mem hy
  have hbefore := hfirst before y (after ++ rest) (by rw [horder, hsplit]; simp) z hz heq
  obtain ⟨above, habove⟩ := (hh.parent_iff hlookup hblock).mpr
    ⟨z, hsplit ▸ List.mem_append_left _ hbefore, heq⟩
  rw [hroot] at habove
  cases habove

/-- With the threshold at least the height of the tree, every reorganization is within reach. -/
theorem Holds.reachable (hh : Holds order s inserted) (ht : HeaderTree order)
    (hfirst : ParentsFirst order) (horder : order = inserted ++ x :: rest)
    {reorgHeightThreshold : Nat}
    (hthreshold : ∀ x ∈ order, ∀ y ∈ order, x.height ≤ y.height + reorgHeightThreshold) :
    s.Reachable reorgHeightThreshold x := by
  have hxmem : x ∈ order := by simp [horder]
  have hsub : ∀ y ∈ inserted, y ∈ order := fun y hy => by
    rw [horder]
    exact List.mem_append_left _ hy
  intro tipId tip htip htipLookup _ _
  obtain ⟨r, h, y, hpath, hlookup, hy, hblock, hroot⟩ :=
    hh.root hfirst horder (mem_of_lookup htipLookup)
  have hnotIn : x ∉ inserted := by
    intro hx
    have hnodup := List.Nodup.of_map _ ht.hashes
    rw [horder, List.nodup_append] at hnodup
    exact hnodup.2.2 x hx x List.mem_cons_self rfl
  cases hparent : s.hashToId.lookup x.previousHash with
  | none =>
    have hxroot : ∀ z ∈ order, z.hash ≠ x.previousHash := by
      intro z hz heq
      obtain ⟨id, -, hid, -⟩ := hh.hash_mem (hfirst inserted x rest horder z hz heq)
      rw [heq, hparent] at hid
      cases hid
    exact absurd (ht.oneRoot x hxmem y (hsub y hy) hxroot hroot ▸ hy) hnotIn
  | some above =>
    obtain ⟨q, hq, -⟩ := (hh.linked.hashed _ _).mp hparent
    obtain ⟨r', h', y', hpath', hlookup', hy', hblock', hroot'⟩ :=
      hh.root hfirst horder (mem_of_lookup hq)
    obtain rfl := ht.oneRoot y (hsub y hy) y' (hsub y' hy') hroot hroot'
    have hsame : r = r' := hh.linked.eq_of_hash hlookup hlookup'
      ((congrArg (·.hash) hblock).trans (congrArg (·.hash) hblock').symm)
    refine ⟨above, r, rfl, hpath, hsame ▸ hpath', ?_⟩
    obtain ⟨z, hz, hblockZ, -⟩ := hh.only htipLookup
    have hz' : tip.height = z.height := congrArg (·.height) hblockZ
    have hy' : h.height = y.height := congrArg (·.height) hblock
    rw [heightOf_eq hlookup, hz', hy']
    exact Nat.le_trans (Nat.min_le_left _ _) (hthreshold z (hsub z hz) y (hsub y hy))

/-- One insertion of the order. -/
theorem Holds.insert (hh : Holds order s inserted) (ht : HeaderTree order)
    (hfirst : ParentsFirst order) (horder : order = inserted ++ x :: rest)
    {reorgHeightThreshold : Nat}
    (hthreshold : ∀ x ∈ order, ∀ y ∈ order, x.height ≤ y.height + reorgHeightThreshold) :
    ∃ r s', insertHeader reorgHeightThreshold x s = some (r, s') ∧
      Holds order s' (inserted ++ [x]) := by
  have hxmem : x ∈ order := by simp [horder]
  have hj := hh.joins ht hfirst horder
  obtain ⟨hinactive, hunmarked⟩ := ht.unmarked x hxmem
  obtain ⟨r, s', heq, htree, hchosen, hbulk, -⟩ := hh.chosen.insertHeader hh.linked hj
    (hh.reachable ht hfirst horder hthreshold) hinactive hunmarked
  have hplace : (s.place x).toBlockHeader = x.toBlockHeader := by
    rw [place_eq]
    rfl
  have hwork : BranchWork order x (s.place x).chainWork := by
    rw [place]
    cases hparent : s.hashToId.lookup x.previousHash with
    | none =>
      refine .root hxmem fun z hz hlink => ?_
      obtain ⟨id, -, hid, -⟩ := hh.hash_mem (hfirst inserted x rest horder z hz hlink)
      rw [hlink, hparent] at hid
      cases hid
    | some above =>
      obtain ⟨y, hy, h, hlookup, -, hhash, hbelow⟩ := hh.of_hash hparent
      simp only [hlookup, Option.map_some, Option.getD_some]
      exact .child hxmem hbelow.mem hhash hbelow
  refine ⟨r, s', heq, htree.linked (hj.linked hh.linked), hchosen, hbulk.trans hh.bulk, ?_, ?_⟩
  · intro id h hlookup
    obtain ⟨h', hlookup', hsame⟩ := htree.lookup' hlookup
    have hblock : h.toBlockHeader = h'.toBlockHeader := congrArg (·.toBlockHeader) hsame
    have hchain : h.chainWork = h'.chainWork := congrArg (·.chainWork) hsame
    rw [hblock, hchain]
    rcases lookup_joined_cases hlookup' with ⟨-, rfl⟩ | ⟨-, hold⟩
    · exact ⟨x, by simp, hplace, hwork⟩
    · obtain ⟨y, hy, hy', hwork'⟩ := hh.only hold
      exact ⟨y, List.mem_append_left _ hy, hy', hwork'⟩
  · intro y hy
    have hstored : ∃ id h, (s.joined x).headers.lookup id = some h ∧
        h.toBlockHeader = y.toBlockHeader := by
      rcases List.mem_append.mp hy with hy | hy
      · obtain ⟨id, h, hlookup, hblock⟩ := hh.all y hy
        exact ⟨id, h, by rw [lookup_joined, if_neg (hh.linked.ne_nextId hlookup), hlookup], hblock⟩
      · rw [List.mem_singleton.mp hy]
        exact ⟨s.nextId, _, by rw [lookup_joined, if_pos rfl], hplace⟩
    obtain ⟨id, h, hlookup, hblock⟩ := hstored
    obtain ⟨h', hlookup', hsame⟩ := htree.lookup hlookup
    have hblock' : h'.toBlockHeader = h.toBlockHeader := congrArg (·.toBlockHeader) hsame
    exact ⟨id, h', hlookup', hblock'.trans hblock⟩

/-- All insertions of the order. -/
theorem holds_insertAll (ht : HeaderTree order) (hfirst : ParentsFirst order)
    {reorgHeightThreshold : Nat}
    (hthreshold : ∀ x ∈ order, ∀ y ∈ order, x.height ≤ y.height + reorgHeightThreshold) :
    ∃ s, insertAll reorgHeightThreshold order = some s ∧ Holds order s order := by
  have hrun : ∀ rest inserted s, order = inserted ++ rest → Holds order s inserted →
      ∃ s', rest.foldlM (fun s header => (insertHeader reorgHeightThreshold header s).map Prod.snd)
        s = some s' ∧ Holds order s' order := by
    intro rest
    induction rest with
    | nil =>
      intro inserted s horder hh
      rw [List.append_nil] at horder
      exact ⟨s, rfl, horder ▸ hh⟩
    | cons x rest ih =>
      intro inserted s horder hh
      obtain ⟨r, s', heq, hh'⟩ := hh.insert ht hfirst horder hthreshold
      obtain ⟨s'', hrest, hdone⟩ := ih (inserted ++ [x]) s' (by rw [horder]; simp) hh'
      exact ⟨s'', by rw [List.foldlM_cons, heq]; exact hrest, hdone⟩
  exact hrun order [] {} rfl (holds_empty order)

/-! ## The same chain -/

/-- The header of the list that an id stands for. -/
def Inner.Names (s : Inner) (id : Nat) (x : LiveBlockHeader) : Prop :=
  ∃ h, s.headers.lookup id = some h ∧ h.toBlockHeader = x.toBlockHeader

theorem Holds.names_unique (hh : Holds order s order) {id id' : Nat} (h : s.Names id x)
    (h' : s.Names id' x) : id = id' := by
  obtain ⟨q, hlookup, hblock⟩ := h
  obtain ⟨q', hlookup', hblock'⟩ := h'
  exact hh.linked.eq_of_hash hlookup hlookup'
    ((congrArg (·.hash) hblock).trans (congrArg (·.hash) hblock').symm)

theorem HeaderTree.names_inj (ht : HeaderTree order) {id : Nat} (hx : x ∈ order) (hy : y ∈ order)
    (h : s.Names id x) (h' : s.Names id y) : x = y := by
  obtain ⟨q, hlookup, hblock⟩ := h
  obtain ⟨q', hlookup', hblock'⟩ := h'
  rw [hlookup] at hlookup'
  cases hlookup'
  exact ht.eq_of_hash hx hy (congrArg (·.hash) (hblock.symm.trans hblock'))

/-- The path of a stored header is its branch. -/
theorem Holds.onPath_iff (hh : Holds order s order) (ht : HeaderTree order) {id id' : Nat}
    (hx : x ∈ order) (hy : y ∈ order) (hidx : s.Names id x) (hidy : s.Names id' y) :
    OnPath s.parentOf id id' ↔ OnBranch order x y := by
  constructor
  · intro hpath
    induction hpath using Relation.ReflTransGen.head_induction_on generalizing x with
    | refl =>
      obtain rfl := ht.names_inj hx hy hidx hidy
      exact .refl
    | head hstep _ ih =>
      obtain ⟨h, hlookup, hblock⟩ := hidx
      rw [parentOf_eq hlookup] at hstep
      obtain ⟨z, hz, q, hq, hblockZ, hhash, -⟩ := hh.of_hash hstep
      have hlink : z.hash = x.previousHash := hhash.trans (congrArg (·.previousHash) hblock)
      exact .head ⟨hz, hlink⟩ (ih hz ⟨q, hq, hblockZ⟩)
  · intro hbranch
    induction hbranch using Relation.ReflTransGen.head_induction_on generalizing id with
    | refl =>
      obtain rfl := hh.names_unique hidx hidy
      exact .refl id
    | head hstep _ ih =>
      obtain ⟨h, hlookup, hblock⟩ := hidx
      obtain ⟨above, q, habove, hq, hblockZ⟩ := hh.hash_mem hstep.1
      refine (OnPath.single ?_).trans (ih hstep.1 ⟨q, hq, hblockZ⟩)
      have hprevious := congrArg (·.previousHash) hblock
      rw [parentOf_eq hlookup, ← habove, hstep.2]
      exact congrArg s.hashToId.lookup hprevious

/-- The tip is the first header of the order whose branch has the most work. -/
theorem Holds.tip_branch (hh : Holds order s order) (ht : HeaderTree order) (hne : order ≠ []) :
    ∃ tipId tip x work, s.tipId = some tipId ∧ s.headers.lookup tipId = some tip ∧ x ∈ order ∧
      tip.toBlockHeader = x.toBlockHeader ∧ BranchWork order x work ∧
      (∀ y work', BranchWork order y work' → work' ≤ work) ∧
      ∀ y, OnBranch order x y → BranchWork order y work → y = x := by
  obtain ⟨y, hy⟩ := List.exists_mem_of_ne_nil order hne
  obtain ⟨id, h, hlookup, -⟩ := hh.all y hy
  obtain ⟨tipId, htip⟩ := hh.chosen.tipped hlookup
  obtain ⟨tip, htipLookup⟩ := hh.chosen.stored htip
  obtain ⟨x, hx, hblock, hwork⟩ := hh.only htipLookup
  have hworkOf : ∀ {y work'}, BranchWork order y work' → ∃ id h, s.headers.lookup id = some h ∧
      h.toBlockHeader = y.toBlockHeader ∧ h.chainWork = work' := by
    intro y work' hy
    obtain ⟨id, h, hlookup, hblockY⟩ := hh.all y hy.mem
    obtain ⟨z, hz, hblockZ, hworkZ⟩ := hh.only hlookup
    obtain rfl := ht.names_inj hy.mem hz ⟨h, hlookup, hblockY⟩ ⟨h, hlookup, hblockZ⟩
    exact ⟨id, h, hlookup, hblockY, hworkZ.unique ht hy⟩
  refine ⟨tipId, tip, x, tip.chainWork, htip, htipLookup, hx, hblock, hwork, ?_, ?_⟩
  · intro y work' hy
    obtain ⟨id, h, hlookup, -, rfl⟩ := hworkOf hy
    have hmost := hh.chosen.most htip htipLookup hlookup
    rw [← Bool.not_eq_true, isMoreWork_iff, Nat.not_lt] at hmost
    exact hmost
  · intro y hbranch hy
    obtain ⟨id, h, hlookup, hblockY, hworkY⟩ := hworkOf hy
    have hpath := (hh.onPath_iff ht hx hy.mem ⟨tip, htipLookup, hblock⟩
      ⟨h, hlookup, hblockY⟩).mpr hbranch
    by_cases heq : id = tipId
    · subst heq
      exact ht.names_inj hy.mem hx ⟨h, hlookup, hblockY⟩ ⟨tip, htipLookup, hblock⟩
    · have hlt := hh.chosen.strict htip htipLookup hlookup hpath heq
      omega

/-- The active headers are the branch of the tip. -/
theorem Holds.mem_activeBlocks (hh : Holds order s order) (ht : HeaderTree order) {tipId : Nat}
    (htip : s.tipId = some tipId) (hx : x ∈ order) (hname : s.Names tipId x) (b : BlockHeader) :
    b ∈ s.activeBlocks ↔ ∃ y ∈ order, OnBranch order x y ∧ y.toBlockHeader = b := by
  constructor
  · rintro ⟨h, hmem, hflag, rfl⟩
    obtain ⟨id, hlookup⟩ := mem_values.mp hmem
    obtain ⟨y, hy, hblock, -⟩ := hh.only hlookup
    have hpath := (hh.chosen.active_onPath hh.linked htip id).mp ⟨h, hlookup, hflag⟩
    exact ⟨y, hy, (hh.onPath_iff ht hx hy hname ⟨h, hlookup, hblock⟩).mp hpath, hblock.symm⟩
  · rintro ⟨y, hy, hbranch, rfl⟩
    obtain ⟨id, h, hlookup, hblock⟩ := hh.all y hy
    have hpath := (hh.onPath_iff ht hx hy hname ⟨h, hlookup, hblock⟩).mpr hbranch
    obtain ⟨h', hlookup', hflag⟩ := (hh.chosen.active_onPath hh.linked htip id).mpr hpath
    rw [hlookup] at hlookup'
    cases hlookup'
    exact ⟨h, mem_values.mpr ⟨id, hlookup⟩, hflag, hblock⟩

/-- A height is looked up among the active headers. -/
theorem findHeaderForHeight_iff (hc : s.Chosen) (hbulk : s.bulk = ∅) (height : Nat)
    (b : BlockHeader) :
    s.findHeaderForHeight height = some b ↔ b ∈ s.activeBlocks ∧ b.height = height := by
  rw [findHeaderForHeight]
  constructor
  · intro hfind
    split at hfind
    next id hid =>
      obtain ⟨⟨h, hlookup, hflag⟩, hheight⟩ := (hc.byHeight _ _).mp hid
      rw [hlookup, Option.map_some, Option.some_inj] at hfind
      subst hfind
      rw [heightOf_eq hlookup] at hheight
      exact ⟨⟨h, mem_values.mpr ⟨id, hlookup⟩, hflag, rfl⟩, hheight⟩
    next =>
      rw [hbulk] at hfind
      simp at hfind
  · rintro ⟨⟨h, hmem, hflag, rfl⟩, hheight⟩
    obtain ⟨id, hlookup⟩ := mem_values.mp hmem
    have hid := (hc.byHeight height id).mpr ⟨⟨h, hlookup, hflag⟩, (heightOf_eq hlookup).trans hheight⟩
    simp only [hid, hlookup, Option.map_some]

theorem OnBranch.perm (hperm : order.Perm order') (h : OnBranch order x y) :
    OnBranch order' x y :=
  Relation.ReflTransGen.mono (fun _ _ hstep => ⟨hperm.mem_iff.mp hstep.1, hstep.2⟩) _ _ h

theorem BranchWork.perm (hperm : order.Perm order') (h : BranchWork order x work) :
    BranchWork order' x work := by
  induction h with
  | root mem none =>
    exact .root (hperm.mem_iff.mp mem) fun y hy => none y (hperm.mem_iff.mpr hy)
  | child mem parent link _ ih =>
    exact .child (hperm.mem_iff.mp mem) (hperm.mem_iff.mp parent) link ih

/-- Two orders of the headers of one tree in which no two branches have equal work lead to the same
tip, the same active headers and the same header for each height. -/
theorem fork_choice_order_independent {reorgHeightThreshold : Nat} (ht : HeaderTree order)
    (hties : NoTies order)
    (hthreshold : ∀ x ∈ order, ∀ y ∈ order, x.height ≤ y.height + reorgHeightThreshold)
    (hperm : order.Perm order') (hfirst : ParentsFirst order) (hfirst' : ParentsFirst order') :
    ∃ s s', insertAll reorgHeightThreshold order = some s ∧
      insertAll reorgHeightThreshold order' = some s' ∧
      s.findChainTipHash = s'.findChainTipHash ∧ s.activeBlocks = s'.activeBlocks ∧
      ∀ height, s.findHeaderForHeight height = s'.findHeaderForHeight height := by
  have ht' := ht.perm hperm
  obtain ⟨s, hrun, hh⟩ := holds_insertAll ht hfirst hthreshold
  obtain ⟨s', hrun', hh'⟩ := holds_insertAll ht' hfirst' fun x hx y hy =>
    hthreshold x (hperm.mem_iff.mpr hx) y (hperm.mem_iff.mpr hy)
  refine ⟨s, s', hrun, hrun', ?_⟩
  by_cases hne : order = []
  · subst hne
    obtain rfl := hperm.nil_eq
    rw [hrun] at hrun'
    cases hrun'
    exact ⟨rfl, rfl, fun _ => rfl⟩
  have hne' : order' ≠ [] := fun h => hne (List.Perm.eq_nil (h ▸ hperm))
  obtain ⟨tipId, tip, x, work, htip, htipLookup, hx, hblock, hwork, hmost, hsole⟩ :=
    hh.tip_branch ht hne
  obtain ⟨tipId', tip', x', work', htip', htipLookup', hx', hblock', hwork', hmost', hsole'⟩ :=
    hh'.tip_branch ht' hne'
  -- both tips have the most work, and neither is above the other
  have hsame : work = work' := Nat.le_antisymm (hmost' x work (hwork.perm hperm))
    (hmost x' work' (hwork'.perm hperm.symm))
  subst hsame
  obtain rfl : x = x' := by
    rcases hties x x' work hwork (hwork'.perm hperm.symm) with hbranch | hbranch
    · exact (hsole x' hbranch (hwork'.perm hperm.symm)).symm
    · exact hsole' x (hbranch.perm hperm) (hwork.perm hperm)
  have hactive : s.activeBlocks = s'.activeBlocks := by
    ext b
    rw [hh.mem_activeBlocks ht htip hx ⟨tip, htipLookup, hblock⟩,
      hh'.mem_activeBlocks ht' htip' hx' ⟨tip', htipLookup', hblock'⟩]
    constructor
    · rintro ⟨y, hy, hbranch, hb⟩
      exact ⟨y, hperm.mem_iff.mp hy, hbranch.perm hperm, hb⟩
    · rintro ⟨y, hy, hbranch, hb⟩
      exact ⟨y, hperm.mem_iff.mpr hy, hbranch.perm hperm.symm, hb⟩
  refine ⟨?_, hactive, fun height => ?_⟩
  · rw [findChainTipHash, findChainTipHash, findChainTipHeader, findChainTipHeader, htip, htip',
      Option.bind_some, Option.bind_some, htipLookup, htipLookup', Option.map_some, Option.map_some]
    exact congrArg (fun b : BlockHeader => some b.hash) (hblock.trans hblock'.symm)
  · ext b
    rw [findHeaderForHeight_iff hh.chosen hh.bulk, findHeaderForHeight_iff hh'.chosen hh'.bulk,
      hactive]

/-- A root with two children, of which the second has the harder block. -/
def twoBranches : List LiveBlockHeader :=
  [forkHeader 0 zeroHash "g", forkHeader 1 "g" "a1",
    { forkHeader 1 "g" "b1" with bits := 0x203fffff }]

theorem twoBranches_work {x : LiveBlockHeader} {work : Nat} (h : BranchWork twoBranches x work) :
    (x.hash, work) ∈ [("g", 2), ("a1", 4), ("b1", 6)] := by
  have hworks : calculateWork 0x207fffff = 2 ∧ calculateWork 0x203fffff = 4 := by decide +kernel
  have hlinks : ∀ x ∈ twoBranches, x.hash = "g" ∧ x.previousHash = zeroHash ∧ x.bits = 0x207fffff ∨
      x.hash = "a1" ∧ x.previousHash = "g" ∧ x.bits = 0x207fffff ∨
      x.hash = "b1" ∧ x.previousHash = "g" ∧ x.bits = 0x203fffff := by decide +kernel
  have hroot : ∃ y ∈ twoBranches, y.hash = "g" := by decide +kernel
  have hzero : zeroHash ≠ "g" ∧ zeroHash ≠ "a1" ∧ zeroHash ≠ "b1" := by decide +kernel
  induction h with
  | @root x mem none =>
    rcases hlinks x mem with ⟨hhash, -, hbits⟩ | ⟨-, hprevious, -⟩ | ⟨-, hprevious, -⟩
    · rw [hhash, hbits, hworks.1]
      decide
    all_goals
      obtain ⟨y, hy, hg⟩ := hroot
      exact absurd (hg.trans hprevious.symm) (none y hy)
  | @child x y work mem parent link below ih =>
    have hparent : y.hash = "g" ∨ y.hash = "a1" ∨ y.hash = "b1" := by
      rcases hlinks y parent with ⟨h, -⟩ | ⟨h, -⟩ | ⟨h, -⟩
      · exact .inl h
      · exact .inr (.inl h)
      · exact .inr (.inr h)
    rcases hlinks x mem with ⟨-, hprevious, -⟩ | ⟨hhash, hprevious, hbits⟩ |
      ⟨hhash, hprevious, hbits⟩
    · rw [hprevious] at link
      rcases hparent with h | h | h
      · exact absurd (link.symm.trans h) hzero.1
      · exact absurd (link.symm.trans h) hzero.2.1
      · exact absurd (link.symm.trans h) hzero.2.2
    all_goals
      rw [link.trans hprevious] at ih
      have hwork : work = 2 := by simpa using ih
      rw [hhash, hbits, hwork]
      first
      | rw [hworks.1]
        decide
      | rw [hworks.2]
        decide

theorem parentsFirst_of_take
    (h : ∀ i (hi : i < order.length), ∀ y ∈ order, y.hash = (order.get ⟨i, hi⟩).previousHash →
      y ∈ order.take i) : ParentsFirst order := by
  intro before x after horder y hy hlink
  have hlt : before.length < order.length := by
    rw [horder]
    simp
  have hget : order.get ⟨before.length, hlt⟩ = x := by
    simp [horder]
  have hmem := h before.length hlt y hy (by rw [hget]; exact hlink)
  rw [horder, List.take_left] at hmem
  exact hmem

/-- The children of the root arrive in either order. -/
theorem fork_choice_order_independent_fork :
    ∃ s s', insertAll 1 twoBranches = some s ∧
      insertAll 1 (twoBranches.take 1 ++ (twoBranches.drop 1).reverse) = some s' ∧
      s.findChainTipHash = s'.findChainTipHash ∧ s.activeBlocks = s'.activeBlocks ∧
      ∀ height, s.findHeaderForHeight height = s'.findHeaderForHeight height := by
  have htree : HeaderTree twoBranches :=
    ⟨by decide +kernel, by decide +kernel, by decide +kernel, by decide +kernel, by decide +kernel⟩
  refine fork_choice_order_independent htree ?_ (by decide +kernel) ?_
    (parentsFirst_of_take (by decide +kernel)) (parentsFirst_of_take (by decide +kernel))
  · intro x y work hx hy
    have hmemx := twoBranches_work hx
    have hmemy := twoBranches_work hy
    have hhash : x.hash = y.hash := by
      simp only [List.mem_cons, Prod.mk.injEq, List.not_mem_nil, or_false] at hmemx hmemy
      grind
    obtain rfl := htree.eq_of_hash hx.mem hy.mem hhash
    exact .inl .refl
  · exact (List.take_append_drop 1 twoBranches ▸
      List.Perm.append_left _ (List.reverse_perm (twoBranches.drop 1)).symm)

end WalletToolbox.Chaintracks
