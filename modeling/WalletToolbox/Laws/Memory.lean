import Mathlib.Data.List.Perm.Subperm
import WalletToolbox.Chaintracks.Memory
import WalletToolbox.Lib.Forest
import WalletToolbox.Lib.Index

/-! # The header tree of MemoryStorage

As long as every header arrives after its parent, the stored headers form a forest in which ids,
hashes and heights agree (`Linked`).
There the search for a common ancestor ends, finds the deepest one when that is within reach, and
the loops of a reorganization pass exactly the headers between a tip and the ancestor. -/

namespace WalletToolbox.Chaintracks

open WalletToolbox.Lib WalletToolbox.Lib.Forest

/-- A header without its marks. -/
def LiveBlockHeader.unmarked (h : LiveBlockHeader) : LiveBlockHeader :=
  { h with isActive := false, isChainTip := false }

namespace Inner

variable {s s' : Inner} {id : Nat} {h : LiveBlockHeader}

/-- The stored parent of a header, by its previous hash. -/
def parentOf (s : Inner) (id : Nat) : Option Nat :=
  (s.headers.lookup id).bind fun h => s.hashToId.lookup h.previousHash

def heightOf (s : Inner) (id : Nat) : Nat := ((s.headers.lookup id).map (·.height)).getD 0

def merkleRootOf (s : Inner) (id : Nat) : String :=
  ((s.headers.lookup id).map (·.merkleRoot)).getD ""

theorem parentOf_eq (hlookup : s.headers.lookup id = some h) :
    s.parentOf id = s.hashToId.lookup h.previousHash := by
  rw [parentOf, hlookup, Option.bind_some]

theorem heightOf_eq (hlookup : s.headers.lookup id = some h) : s.heightOf id = h.height := by
  rw [heightOf, hlookup]
  rfl

theorem lookup_of_mem (hmem : id ∈ s.headers) : ∃ h, s.headers.lookup id = some h :=
  Option.isSome_iff_exists.mp (AList.lookup_isSome.mpr hmem)

theorem mem_of_lookup (hlookup : s.headers.lookup id = some h) : id ∈ s.headers := by
  rw [← AList.lookup_isSome, hlookup]
  rfl

theorem mem_values : h ∈ s.values ↔ ∃ id, s.headers.lookup id = some h := by
  rw [values, List.mem_map]
  constructor
  · rintro ⟨⟨id, h⟩, hentry, rfl⟩
    exact ⟨id, AList.mem_lookup_iff.mpr hentry⟩
  · rintro ⟨id, hlookup⟩
    exact ⟨⟨id, h⟩, AList.mem_lookup_iff.mp hlookup, rfl⟩

/-! ## The tree -/

/-- Ids are given in order, the hash index finds the headers, the links name the stored parents and
a header is one higher than its parent. -/
structure Linked (s : Inner) : Prop where
  fresh : ∀ {id h}, s.headers.lookup id = some h → id < s.nextId
  ids : ∀ {id h}, s.headers.lookup id = some h → h.headerId = some id
  hashed : ∀ hash id, s.hashToId.lookup hash = some id ↔
    ∃ h, s.headers.lookup id = some h ∧ h.hash = hash
  links : ∀ {id h}, s.headers.lookup id = some h →
    h.previousHeaderId = s.hashToId.lookup h.previousHash
  heights : ∀ {id h above q}, s.headers.lookup id = some h → s.parentOf id = some above →
    s.headers.lookup above = some q → h.height = q.height + 1

theorem Linked.hash_stored (hl : s.Linked) (hlookup : s.headers.lookup id = some h) :
    s.hashToId.lookup h.hash = some id :=
  (hl.hashed _ _).mpr ⟨h, hlookup, rfl⟩

theorem Linked.eq_of_hash (hl : s.Linked) {id' : Nat} {h' : LiveBlockHeader}
    (hlookup : s.headers.lookup id = some h) (hlookup' : s.headers.lookup id' = some h')
    (heq : h.hash = h'.hash) : id = id' := by
  have hid := hl.hash_stored hlookup
  rw [heq, hl.hash_stored hlookup'] at hid
  exact (Option.some.inj hid).symm

/-- A parent is stored, and is the header named by the previous hash. -/
theorem Linked.parent (hl : s.Linked) {above : Nat} (hparent : s.parentOf id = some above) :
    ∃ h q, s.headers.lookup id = some h ∧ s.headers.lookup above = some q ∧
      q.hash = h.previousHash ∧ h.height = q.height + 1 := by
  obtain ⟨h, hlookup, habove⟩ := Option.bind_eq_some_iff.mp hparent
  obtain ⟨q, hq, hhash⟩ := (hl.hashed _ _).mp habove
  exact ⟨h, q, hlookup, hq, hhash, hl.heights hlookup hparent hq⟩

theorem Linked.ranked (hl : s.Linked) : Ranked s.parentOf s.heightOf := by
  intro id above hparent
  obtain ⟨h, q, hlookup, hq, -, hheight⟩ := hl.parent hparent
  rw [heightOf_eq hlookup, heightOf_eq hq, hheight]

theorem Linked.climb_stored (hl : s.Linked) {k a : Nat} (hid : id ∈ s.headers)
    (hclimb : climb s.parentOf k id = some a) : a ∈ s.headers := by
  induction k generalizing id with
  | zero =>
    cases hclimb
    exact hid
  | succ k ih =>
    obtain ⟨above, hparent, hrest⟩ := climb_succ hclimb
    obtain ⟨-, q, -, hq, -⟩ := hl.parent hparent
    exact ih (mem_of_lookup hq) hrest

theorem Linked.onPath_stored (hl : s.Linked) {a : Nat} (hid : id ∈ s.headers)
    (hpath : OnPath s.parentOf id a) : a ∈ s.headers := by
  obtain ⟨k, hk⟩ := onPath_iff_climb.mp hpath
  exact hl.climb_stored hid hk

/-- No path is longer than there are headers. -/
theorem Linked.climb_lt (hl : s.Linked) {k a : Nat} (hid : id ∈ s.headers)
    (hclimb : climb s.parentOf k id = some a) : k < s.size := by
  have hnodup := hl.ranked.nodup_segment hclimb
  have hsegment := fun y => (hl.ranked.mem_segment (y := y) hclimb)
  have hnodup' : (a :: segment s.parentOf k id).Nodup :=
    List.nodup_cons.mpr ⟨fun hmem => ((hsegment a).mp hmem).2 (.refl a), hnodup⟩
  have hsub : (a :: segment s.parentOf k id) ⊆ s.headers.keys := by
    intro y hy
    rw [← AList.mem_keys]
    rcases List.mem_cons.mp hy with rfl | hy
    · exact hl.climb_stored hid hclimb
    · exact hl.onPath_stored hid ((hsegment y).mp hy).1
  have hlen := (List.subperm_of_subset hnodup' hsub).length_le
  rw [List.length_cons, length_segment hclimb, AList.keys, List.keys, List.length_map] at hlen
  exact hlen

theorem Linked.stepBack (hl : s.Linked) (hlookup : s.headers.lookup id = some h) :
    s.stepBack h = (s.parentOf id).bind s.headers.lookup := by
  rw [Inner.stepBack, hl.links hlookup, parentOf_eq hlookup, Option.or_self]

/-! ## The common ancestor -/

/-- The loop stops on the path at the given height, or runs out of it. -/
theorem Linked.bringDown (hl : s.Linked) {height turns : Nat}
    (hlookup : s.headers.lookup id = some h)
    (hturns : ∀ k a, climb s.parentOf k id = some a → k < turns) :
    s.bringDown height turns h =
      some ((climb s.parentOf (h.height - height) id).bind s.headers.lookup) := by
  induction turns generalizing id h with
  | zero => exact absurd (hturns 0 id rfl) (Nat.not_lt_zero 0)
  | succ turns ih =>
    rw [Inner.bringDown]
    split
    next hlt =>
      obtain ⟨d, hd⟩ : ∃ d, h.height - height = d + 1 := ⟨h.height - height - 1, by omega⟩
      rw [hl.stepBack hlookup, hd, climb]
      cases hparent : s.parentOf id with
      | none => rfl
      | some above =>
        obtain ⟨h', q, hlookup', hq, -, hheight⟩ := hl.parent hparent
        rw [hlookup] at hlookup'
        cases hlookup'
        rw [Option.bind_some, Option.bind_some, hq]
        have hdown := ih hq fun k a hclimb =>
          Nat.lt_of_succ_lt_succ (hturns (k + 1) a (by rw [climb, hparent]; exact hclimb))
        have hdiff : q.height - height = d := by omega
        rw [hdiff] at hdown
        exact hdown
    next hge =>
      have hzero : h.height - height = 0 := by omega
      rw [hzero, climb, Option.bind_some, hlookup]

/-- Two walkers in step find the first header that their paths share. -/
theorem Linked.walkBack_some (hl : s.Linked) {steps id1 id2 : Nat} {h1 h2 ha : LiveBlockHeader}
    (hlookup1 : s.headers.lookup id1 = some h1) (hlookup2 : s.headers.lookup id2 = some h2)
    (hwalk : s.walkBack steps h1 h2 = some ha) :
    ∃ k a, climb s.parentOf k id1 = some a ∧ climb s.parentOf k id2 = some a ∧
      s.headers.lookup a = some ha ∧
      ∀ j < k, climb s.parentOf j id1 ≠ climb s.parentOf j id2 := by
  have hmeet : h1.hash = h2.hash → id1 = id2 := hl.eq_of_hash hlookup1 hlookup2
  induction steps generalizing id1 id2 h1 h2 with
  | zero =>
    rw [walkBack] at hwalk
    split at hwalk
    next heq =>
      cases hwalk
      obtain rfl := hmeet heq
      exact ⟨0, id1, rfl, rfl, hlookup1, fun j hj => absurd hj (Nat.not_lt_zero j)⟩
    next => cases hwalk
  | succ steps ih =>
    rw [walkBack] at hwalk
    split at hwalk
    next heq =>
      cases hwalk
      obtain rfl := hmeet heq
      exact ⟨0, id1, rfl, rfl, hlookup1, fun j hj => absurd hj (Nat.not_lt_zero j)⟩
    next hne =>
      rw [hl.stepBack hlookup1, hl.stepBack hlookup2] at hwalk
      split at hwalk
      next previous1 previous2 hprevious1 hprevious2 =>
        obtain ⟨above1, hparent1, hq1⟩ := Option.bind_eq_some_iff.mp hprevious1
        obtain ⟨above2, hparent2, hq2⟩ := Option.bind_eq_some_iff.mp hprevious2
        obtain ⟨k, a, hk1, hk2, ha', hbefore⟩ := ih hq1 hq2 hwalk (hl.eq_of_hash hq1 hq2)
        refine ⟨k + 1, a, ?_, ?_, ha', fun j hj => ?_⟩
        · rw [climb, hparent1]
          exact hk1
        · rw [climb, hparent2]
          exact hk2
        · cases j with
          | zero =>
            intro heq
            cases heq
            rw [hlookup1] at hlookup2
            cases hlookup2
            exact hne rfl
          | succ j =>
            rw [climb, hparent1, climb, hparent2]
            exact hbefore j (Nat.lt_of_succ_lt_succ hj)
      next => cases hwalk

theorem Linked.walkBack_isSome (hl : s.Linked) (steps : Nat) {id1 id2 k a : Nat}
    {h1 h2 : LiveBlockHeader}
    (hlookup1 : s.headers.lookup id1 = some h1) (hlookup2 : s.headers.lookup id2 = some h2)
    (hk1 : climb s.parentOf k id1 = some a) (hk2 : climb s.parentOf k id2 = some a)
    (hle : k ≤ steps) : (s.walkBack steps h1 h2).isSome := by
  induction steps generalizing id1 id2 h1 h2 k with
  | zero =>
    obtain rfl : k = 0 := by omega
    cases hk1
    cases hk2
    rw [hlookup1] at hlookup2
    cases hlookup2
    rw [walkBack, if_pos rfl]
    rfl
  | succ steps ih =>
    rw [walkBack]
    split
    next => rfl
    next hne =>
      cases k with
      | zero =>
        cases hk1
        cases hk2
        rw [hlookup1] at hlookup2
        cases hlookup2
        exact absurd rfl hne
      | succ k =>
        obtain ⟨above1, hparent1, hrest1⟩ := climb_succ hk1
        obtain ⟨above2, hparent2, hrest2⟩ := climb_succ hk2
        obtain ⟨-, q1, -, hq1, -⟩ := hl.parent hparent1
        obtain ⟨-, q2, -, hq2, -⟩ := hl.parent hparent2
        rw [hl.stepBack hlookup1, hl.stepBack hlookup2, hparent1, hparent2, Option.bind_some,
          Option.bind_some, hq1, hq2]
        exact ih hq1 hq2 hrest1 hrest2 (by omega)

/-- The paths of two headers meet within the threshold, counted from the lower of the two. -/
def Meets (s : Inner) (reorgHeightThreshold id1 id2 : Nat) : Prop :=
  ∃ a, OnPath s.parentOf id1 a ∧ OnPath s.parentOf id2 a ∧
    min (s.heightOf id1) (s.heightOf id2) ≤ s.heightOf a + reorgHeightThreshold

/-- `a` is on both paths, and so are only the headers above it. -/
structure Deepest (s : Inner) (id1 id2 a : Nat) : Prop where
  left : OnPath s.parentOf id1 a
  right : OnPath s.parentOf id2 a
  below : ∀ x, OnPath s.parentOf id1 x → OnPath s.parentOf id2 x → OnPath s.parentOf a x

/-- Walkers that start at one height meet at the deepest common header. -/
theorem Linked.deepest (hl : s.Linked) {id1 id2 j1 j2 k cur1 cur2 a : Nat}
    (hcur1 : climb s.parentOf j1 id1 = some cur1) (hcur2 : climb s.parentOf j2 id2 = some cur2)
    (hsame : s.heightOf cur1 = s.heightOf cur2) (hone : j1 = 0 ∨ j2 = 0)
    (hk1 : climb s.parentOf k cur1 = some a) (hk2 : climb s.parentOf k cur2 = some a)
    (hbefore : ∀ j < k, climb s.parentOf j cur1 ≠ climb s.parentOf j cur2) :
    s.Deepest id1 id2 a := by
  have hrank := hl.ranked
  have hleft := (onPath_of_climb hcur1).trans (onPath_of_climb hk1)
  have hright := (onPath_of_climb hcur2).trans (onPath_of_climb hk2)
  refine ⟨hleft, hright, fun x hx1 hx2 => ?_⟩
  have h1 := hrank.climb hcur1
  have h2 := hrank.climb hcur2
  have hx1' := (hrank.onPath hx1).2
  have hx2' := (hrank.onPath hx2).2
  have hlow : s.heightOf x ≤ s.heightOf cur1 := by
    rcases hone with rfl | rfl <;> omega
  -- both walkers pass `x`, after the same number of steps
  have hpass1 := (hrank.onPath (hrank.onPath_of_le (onPath_of_climb hcur1) hx1 hlow)).1
  have hpass2 := (hrank.onPath (hrank.onPath_of_le (onPath_of_climb hcur2) hx2
    (hsame ▸ hlow))).1
  rw [← hsame] at hpass2
  have hnotBefore : ¬s.heightOf cur1 - s.heightOf x < k :=
    fun hlt => hbefore _ hlt (hpass1.trans hpass2.symm)
  have hka := hrank.climb hk1
  exact hrank.onPath_of_le hleft hx1 (by omega)

/-- The search ends; what it finds is the deepest common header, and it finds one that is within
reach. -/
theorem Linked.findCommonAncestor (hl : s.Linked) (reorgHeightThreshold : Nat) {id1 id2 : Nat}
    (hid1 : id1 ∈ s.headers) (hid2 : id2 ∈ s.headers) :
    ∃ r, findCommonAncestorSync reorgHeightThreshold s id1 id2 = some r ∧
      (∀ ha, r = some ha → ∃ a, s.headers.lookup a = some ha ∧ s.Deepest id1 id2 a) ∧
      (s.Meets reorgHeightThreshold id1 id2 → r ≠ none) := by
  have hrank := hl.ranked
  obtain ⟨h1, hlookup1⟩ := lookup_of_mem hid1
  obtain ⟨h2, hlookup2⟩ := lookup_of_mem hid2
  have hheight1 := heightOf_eq hlookup1
  have hheight2 := heightOf_eq hlookup2
  rw [findCommonAncestorSync, hlookup1, hlookup2]
  simp only [hl.bringDown hlookup1 fun k a => hl.climb_lt hid1]
  cases hcur1 : climb s.parentOf (h1.height - h2.height) id1 with
  | none =>
    refine ⟨none, rfl, fun ha h => (nomatch h), fun ⟨a, ha1, ha2, _⟩ => ?_⟩
    obtain ⟨cur, hcur, -⟩ := hrank.reach ha1 (hrank.onPath ha2).2
    rw [hheight1, hheight2, hcur1] at hcur
    cases hcur
  | some cur1 =>
    obtain ⟨q1, hq1⟩ := lookup_of_mem (hl.climb_stored hid1 hcur1)
    have hqheight1 := heightOf_eq hq1
    have hdrop1 := hrank.climb hcur1
    simp only [Option.bind_some, hq1, hl.bringDown hlookup2 fun k a => hl.climb_lt hid2]
    cases hcur2 : climb s.parentOf (h2.height - q1.height) id2 with
    | none =>
      refine ⟨none, rfl, fun ha h => (nomatch h), fun ⟨a, ha1, ha2, _⟩ => ?_⟩
      have hle1 := (hrank.onPath ha1).2
      have hle2 := (hrank.onPath ha2).2
      obtain ⟨cur, hcur, -⟩ := hrank.reach ha2 (r := q1.height) (by omega)
      rw [hheight2, hcur2] at hcur
      cases hcur
    | some cur2 =>
      obtain ⟨q2, hq2⟩ := lookup_of_mem (hl.climb_stored hid2 hcur2)
      have hdrop2 := hrank.climb hcur2
      have hqheight2 := heightOf_eq hq2
      simp only [Option.bind_some, hq2]
      refine ⟨_, rfl, fun ha hwalk => ?_, fun ⟨a, ha1, ha2, hmin⟩ hnone => ?_⟩
      · obtain ⟨k, a, hk1, hk2, hlookup, hbefore⟩ := hl.walkBack_some hq1 hq2 hwalk
        exact ⟨a, hlookup, hl.deepest hcur1 hcur2 (by omega) (by omega) hk1 hk2 hbefore⟩
      · have hle1 := (hrank.onPath ha1).2
        have hle2 := (hrank.onPath ha2).2
        have hup1 := hrank.onPath_of_le (onPath_of_climb hcur1) ha1 (by omega)
        have hup2 := hrank.onPath_of_le (onPath_of_climb hcur2) ha2 (by omega)
        have hk1 := (hrank.onPath hup1).1
        have hk2 := (hrank.onPath hup2).1
        have hsame : s.heightOf cur2 = s.heightOf cur1 := by omega
        rw [hsame] at hk2
        have hsome := hl.walkBack_isSome reorgHeightThreshold hq1 hq2 hk1 hk2 (by omega)
        rw [hnone] at hsome
        cases hsome

/-! ## Marks -/

/-- The stored headers differ in nothing but their marks. -/
structure SameTree (s s' : Inner) : Prop where
  headers : ∀ id, (s'.headers.lookup id).map (·.unmarked) = (s.headers.lookup id).map (·.unmarked)
  hashToId : s'.hashToId = s.hashToId
  nextId : s'.nextId = s.nextId

theorem SameTree.refl (s : Inner) : s.SameTree s := ⟨fun _ => rfl, rfl, rfl⟩

theorem SameTree.trans {s'' : Inner} (h : s.SameTree s') (h' : s'.SameTree s'') :
    s.SameTree s'' :=
  ⟨fun id => (h'.headers id).trans (h.headers id), h'.hashToId.trans h.hashToId,
    h'.nextId.trans h.nextId⟩

theorem SameTree.lookup (hsame : s.SameTree s') (hlookup : s.headers.lookup id = some h) :
    ∃ h', s'.headers.lookup id = some h' ∧ h'.unmarked = h.unmarked := by
  have heq := hsame.headers id
  rw [hlookup] at heq
  exact Option.map_eq_some_iff.mp heq

theorem SameTree.lookup' (hsame : s.SameTree s') {h' : LiveBlockHeader}
    (hlookup : s'.headers.lookup id = some h') :
    ∃ h, s.headers.lookup id = some h ∧ h'.unmarked = h.unmarked := by
  have heq := hsame.headers id
  rw [hlookup] at heq
  obtain ⟨h, hlookup', hunmarked⟩ := Option.map_eq_some_iff.mp heq.symm
  exact ⟨h, hlookup', hunmarked.symm⟩

theorem SameTree.mem (hsame : s.SameTree s') : id ∈ s'.headers ↔ id ∈ s.headers := by
  rw [← AList.lookup_isSome, ← AList.lookup_isSome, ← Option.isSome_map, hsame.headers id,
    Option.isSome_map]

theorem SameTree.parentOf (hsame : s.SameTree s') : s'.parentOf = s.parentOf := by
  funext id
  cases hlookup : s'.headers.lookup id with
  | none =>
    have heq := hsame.headers id
    rw [hlookup] at heq
    rw [Inner.parentOf, Inner.parentOf, hlookup, Option.map_eq_none_iff.mp heq.symm]
    rfl
  | some h' =>
    obtain ⟨h, hlookup', hunmarked⟩ := hsame.lookup' hlookup
    have hprevious : h'.previousHash = h.previousHash := congrArg (·.previousHash) hunmarked
    rw [parentOf_eq hlookup, parentOf_eq hlookup', hsame.hashToId, hprevious]

theorem SameTree.heightOf (hsame : s.SameTree s') : s'.heightOf = s.heightOf := by
  funext id
  have heq := congrArg (Option.map fun h : LiveBlockHeader => h.height) (hsame.headers id)
  rw [Option.map_map, Option.map_map] at heq
  exact congrArg (·.getD 0) heq

theorem SameTree.linked (hsame : s.SameTree s') (hl : s.Linked) : s'.Linked where
  fresh hlookup := by
    obtain ⟨h, hlookup', -⟩ := hsame.lookup' hlookup
    rw [hsame.nextId]
    exact hl.fresh hlookup'
  ids hlookup := by
    obtain ⟨h, hlookup', hunmarked⟩ := hsame.lookup' hlookup
    exact (congrArg (·.headerId) hunmarked).trans (hl.ids hlookup')
  hashed hash id := by
    rw [hsame.hashToId, hl.hashed]
    constructor
    · rintro ⟨h, hlookup, rfl⟩
      obtain ⟨h', hlookup', hunmarked⟩ := hsame.lookup hlookup
      exact ⟨h', hlookup', congrArg (·.hash) hunmarked⟩
    · rintro ⟨h', hlookup', rfl⟩
      obtain ⟨h, hlookup, hunmarked⟩ := hsame.lookup' hlookup'
      exact ⟨h, hlookup, (congrArg (·.hash) hunmarked).symm⟩
  links hlookup := by
    obtain ⟨h, hlookup', hunmarked⟩ := hsame.lookup' hlookup
    have hlink := hl.links hlookup'
    rw [hsame.hashToId]
    have hprevious := congrArg (·.previousHash) hunmarked
    exact (congrArg (·.previousHeaderId) hunmarked).trans
      (hlink.trans (congrArg s.hashToId.lookup hprevious.symm))
  heights hlookup hparent hq := by
    obtain ⟨h, hlookup', hunmarked⟩ := hsame.lookup' hlookup
    obtain ⟨q, hq', hunmarked'⟩ := hsame.lookup' hq
    rw [hsame.parentOf] at hparent
    have hheight := hl.heights hlookup' hparent hq'
    exact (congrArg (·.height) hunmarked).trans
      (hheight.trans (congrArg (·.height + 1) hunmarked'.symm))

/-- What both marks of `handle_reorg` do: they set the flag of one header, and leave alone all but
the two indexes of the active headers. -/
structure Marks (mark : Nat → LiveBlockHeader → Inner → Inner) (flag : Bool) : Prop where
  headers : ∀ id h s, (mark id h s).headers = s.headers.insert id { h with isActive := flag }
  hashToId : ∀ id h s, (mark id h s).hashToId = s.hashToId
  nextId : ∀ id h s, (mark id h s).nextId = s.nextId

theorem marks_deactivate : Marks deactivate false :=
  ⟨fun _ _ _ => rfl, fun _ _ _ => rfl, fun _ _ _ => rfl⟩

theorem marks_activate : Marks activate true :=
  ⟨fun _ _ _ => rfl, fun _ _ _ => rfl, fun _ _ _ => rfl⟩

/-- Mark the stored headers of a list. -/
def markAll (mark : Nat → LiveBlockHeader → Inner → Inner) (ids : List Nat) (s : Inner) : Inner :=
  ids.foldl (fun s id => ((s.headers.lookup id).map fun h => mark id h s).getD s) s

variable {mark : Nat → LiveBlockHeader → Inner → Inner} {flag : Bool}

theorem markAll_cons (hlookup : s.headers.lookup id = some h) (rest : List Nat) :
    markAll mark (id :: rest) s = markAll mark rest (mark id h s) := by
  rw [markAll, List.foldl_cons, hlookup]
  rfl

theorem Marks.sameTree (hm : Marks mark flag) (hlookup : s.headers.lookup id = some h) :
    s.SameTree (mark id h s) where
  headers id' := by
    rw [hm.headers]
    by_cases heq : id' = id
    · subst heq
      rw [AList.lookup_insert, hlookup]
      rfl
    · rw [AList.lookup_insert_ne heq]
  hashToId := hm.hashToId id h s
  nextId := hm.nextId id h s

theorem Marks.lookup_markAll (hm : Marks mark flag) (ids : List Nat) (id : Nat) :
    (markAll mark ids s).headers.lookup id =
      if id ∈ ids then (s.headers.lookup id).map ({ · with isActive := flag })
      else s.headers.lookup id := by
  induction ids generalizing s with
  | nil => rfl
  | cons id' rest ih =>
    cases hlookup : s.headers.lookup id' with
    | none =>
      have hskip : markAll mark (id' :: rest) s = markAll mark rest s := by
        rw [markAll, List.foldl_cons, hlookup]
        rfl
      rw [hskip, ih]
      by_cases heq : id = id'
      · subst heq
        simp only [hlookup, Option.map_none, ite_self]
      · simp only [List.mem_cons, heq, false_or]
    | some h =>
      rw [markAll_cons hlookup, ih, hm.headers]
      by_cases heq : id = id'
      · subst heq
        rw [AList.lookup_insert, if_pos List.mem_cons_self, hlookup, Option.map_some,
          Option.map_some, ite_self]
      · rw [AList.lookup_insert_ne heq]
        simp only [List.mem_cons, heq, false_or]

theorem Marks.sameTree_markAll (hm : Marks mark flag) (ids : List Nat) (s : Inner) :
    s.SameTree (markAll mark ids s) := by
  induction ids generalizing s with
  | nil => exact .refl s
  | cons id rest ih =>
    cases hlookup : s.headers.lookup id with
    | none =>
      have hskip : markAll mark (id :: rest) s = markAll mark rest s := by
        rw [markAll, List.foldl_cons, hlookup]
        rfl
      rw [hskip]
      exact ih s
    | some h =>
      rw [markAll_cons hlookup]
      exact (hm.sameTree hlookup).trans (ih _)

theorem Linked.previousStored (hl : s.Linked) (id : Nat) : s.previousStored id = s.parentOf id := by
  cases hlookup : s.headers.lookup id with
  | none => rw [Inner.previousStored, Inner.parentOf, hlookup, Option.bind_none, Option.bind_none]
  | some h =>
    rw [Inner.previousStored, parentOf_eq hlookup, hlookup, Option.bind_some, hl.links hlookup]
    cases hparent : s.hashToId.lookup h.previousHash with
    | none => rfl
    | some above =>
      obtain ⟨q, hq, -⟩ := (hl.hashed _ _).mp hparent
      rw [Option.filter_some, if_pos (decide_eq_true (mem_of_lookup hq))]

/-- A loop of `handle_reorg` marks the headers between its start and the ancestor, and passes them
in that order. -/
theorem Linked.sweep (hl : s.Linked) (hm : Marks mark flag) {k turns a : Nat} {ha : LiveBlockHeader}
    (hid : id ∈ s.headers) (hclimb : climb s.parentOf k id = some a)
    (hlookupA : s.headers.lookup a = some ha) (hturns : k < turns) :
    sweep mark ha.hash turns (some id) s =
      some (markAll mark (segment s.parentOf k id) s,
        (segment s.parentOf k id).filterMap s.headers.lookup) := by
  induction k generalizing id s turns with
  | zero =>
    cases hclimb
    obtain ⟨turns, rfl⟩ : ∃ n, turns = n + 1 := ⟨turns - 1, by omega⟩
    rw [Inner.sweep, hlookupA]
    simp only [↓reduceIte, Forest.segment]
    rfl
  | succ k ih =>
    obtain ⟨turns, rfl⟩ : ∃ n, turns = n + 1 := ⟨turns - 1, by omega⟩
    obtain ⟨above, hparent, hrest⟩ := climb_succ hclimb
    obtain ⟨h, q, hlookup, hq, -⟩ := hl.parent hparent
    have hne : id ≠ a := by
      rintro rfl
      have heq := hl.ranked.climb hclimb
      omega
    have hhash : h.hash ≠ ha.hash := fun heq => hne (hl.eq_of_hash hlookup hlookupA heq)
    have hsame := hm.sameTree hlookup
    have hl' := hsame.linked hl
    have hlookupA' : (mark id h s).headers.lookup a = some ha := by
      rw [hm.headers, AList.lookup_insert_ne (Ne.symm hne)]
      exact hlookupA
    rw [Inner.sweep, hlookup]
    simp only [if_neg hhash]
    rw [hl'.previousStored, hsame.parentOf, hparent]
    rw [ih hl' (hsame.mem.mpr (mem_of_lookup hq)) (by rw [hsame.parentOf]; exact hrest) hlookupA'
      (by omega)]
    rw [hsame.parentOf, Forest.segment, hparent, markAll_cons hlookup]
    simp only [Option.map_some, List.filterMap_cons, hlookup]
    have hpassed : (segment s.parentOf k above).filterMap (mark id h s).headers.lookup =
        (segment s.parentOf k above).filterMap s.headers.lookup := by
      apply List.filterMap_congr
      intro x hx
      have hxid : x ≠ id := by
        rintro rfl
        have hle := (hl.ranked.onPath ((hl.ranked.mem_segment hrest).mp hx).1).2
        have hlt := hl.ranked _ _ hparent
        omega
      rw [hm.headers, AList.lookup_insert_ne hxid]
    rw [hpassed]

theorem filterMap_lookup_length {ids : List Nat} (hstored : ∀ id ∈ ids, id ∈ s.headers) :
    (ids.filterMap s.headers.lookup).length = ids.length := by
  induction ids with
  | nil => rfl
  | cons id rest ih =>
    obtain ⟨h, hlookup⟩ := lookup_of_mem (hstored id List.mem_cons_self)
    rw [List.filterMap_cons, hlookup, List.length_cons, List.length_cons,
      ih fun id' hid' => hstored id' (List.mem_cons_of_mem _ hid')]

/-- The headers between a tip and an ancestor of it. -/
def between (s : Inner) (id a : Nat) : List Nat :=
  segment s.parentOf (s.heightOf id - s.heightOf a) id

theorem Linked.mem_between (hl : s.Linked) {a x : Nat} (ha : OnPath s.parentOf id a) :
    x ∈ s.between id a ↔ OnPath s.parentOf id x ∧ ¬OnPath s.parentOf a x :=
  hl.ranked.mem_segment (hl.ranked.onPath ha).1

/-- What a reorganization does: nothing, when the branches do not meet within the threshold, or the
old branch is deactivated and the new one activated. -/
theorem Linked.handleReorg (hl : s.Linked) (reorgHeightThreshold : Nat) {oldTipId newTipId : Nat}
    (hold : oldTipId ∈ s.headers) (hnew : newTipId ∈ s.headers) :
    (handleReorg reorgHeightThreshold s oldTipId newTipId = some (s, 0, []) ∧
      ¬s.Meets reorgHeightThreshold oldTipId newTipId) ∨
    ∃ a, s.Deepest oldTipId newTipId a ∧
      handleReorg reorgHeightThreshold s oldTipId newTipId =
        some (markAll activate (s.between newTipId a)
            (markAll deactivate (s.between oldTipId a) s),
          (s.between oldTipId a).length,
          ((s.between oldTipId a).filterMap s.headers.lookup).map (·.toBlockHeader)) := by
  obtain ⟨r, hfind, hfound, hreach⟩ := hl.findCommonAncestor reorgHeightThreshold hold hnew
  cases r with
  | none =>
    refine .inl ⟨?_, fun hmeets => hreach hmeets rfl⟩
    rw [Inner.handleReorg, hfind]
  | some ha =>
    obtain ⟨a, hlookupA, hdeepest⟩ := hfound ha rfl
    refine .inr ⟨a, hdeepest, ?_⟩
    have hclimbOld := (hl.ranked.onPath hdeepest.left).1
    have hclimbNew := (hl.ranked.onPath hdeepest.right).1
    have hsweepOld := hl.sweep marks_deactivate hold hclimbOld hlookupA
      (Nat.lt_succ_of_lt (hl.climb_lt hold hclimbOld))
    -- the second loop runs on the state that the first one leaves
    have hsame := marks_deactivate.sameTree_markAll (s.between oldTipId a) s
    have hl' := hsame.linked hl
    have hnew' := hsame.mem.mpr hnew
    have hclimbNew' := hclimbNew
    rw [← hsame.parentOf] at hclimbNew'
    have hlookupA' : (markAll deactivate (s.between oldTipId a) s).headers.lookup a = some ha := by
      rw [marks_deactivate.lookup_markAll, if_neg, hlookupA]
      exact fun hmem => ((hl.mem_between hdeepest.left).mp hmem).2 (.refl a)
    have hsweepNew := hl'.sweep marks_activate hnew' hclimbNew' hlookupA'
      (Nat.lt_succ_of_lt (hl'.climb_lt hnew' hclimbNew'))
    rw [hsame.parentOf] at hsweepNew
    rw [Inner.handleReorg, hfind]
    simp only [hsweepOld]
    rw [show segment s.parentOf (s.heightOf oldTipId - s.heightOf a) oldTipId =
      s.between oldTipId a from rfl]
    simp only [hsweepNew]
    rw [filterMap_lookup_length]
    · rfl
    · intro id hid
      exact hl.onPath_stored hold ((hl.mem_between hdeepest.left).mp hid).1

/-! ## The indexes of the active headers -/

/-- Both loops keep an index of the active headers in the same way. -/
theorem foldl_markAll {κ : Type} (index : Inner → AList fun _ : κ => Nat)
    (key : LiveBlockHeader → κ) (default : κ)
    (upd : (AList fun _ : κ => Nat) → κ → Nat → AList fun _ : κ => Nat)
    (hm : Marks mark flag) (hindex : ∀ id h s, index (mark id h s) = upd (index s) (key h) id)
    (hkey : ∀ h h' : LiveBlockHeader, h'.unmarked = h.unmarked → key h' = key h)
    {ids : List Nat} (hstored : ∀ id ∈ ids, id ∈ s.headers) :
    index (markAll mark ids s) = ids.foldl (fun m id =>
      upd m (((s.headers.lookup id).map key).getD default) id) (index s) := by
  induction ids generalizing s with
  | nil => rfl
  | cons id rest ih =>
    obtain ⟨h, hlookup⟩ := lookup_of_mem (hstored id List.mem_cons_self)
    have hsame := hm.sameTree hlookup
    rw [markAll_cons hlookup, ih fun id' hid' => hsame.mem.mpr
      (hstored id' (List.mem_cons_of_mem _ hid')), hindex, List.foldl_cons, hlookup]
    have hkeys : ∀ id', ((mark id h s).headers.lookup id').map key =
        (s.headers.lookup id').map key := by
      intro id'
      cases hlookup' : s.headers.lookup id' with
      | none =>
        have heq := hsame.headers id'
        rw [hlookup'] at heq
        rw [Option.map_eq_none_iff.mp heq]
      | some h' =>
        obtain ⟨h'', hlookup'', hunmarked⟩ := hsame.lookup hlookup'
        rw [hlookup'', Option.map_some, Option.map_some, hkey h' h'' hunmarked]
    simp only [hkeys]
    rfl

theorem heightToId_deactivateAll (ids : List Nat) (hstored : ∀ id ∈ ids, id ∈ s.headers) :
    (markAll deactivate ids s).heightToId =
      ids.foldl (fun m id => m.erase (s.heightOf id)) s.heightToId :=
  foldl_markAll heightToId (·.height) 0 (fun m k _ => m.erase k) marks_deactivate (fun _ _ _ => rfl)
    (fun _ _ h => congrArg (·.height) h) hstored

theorem heightToId_activateAll (ids : List Nat) (hstored : ∀ id ∈ ids, id ∈ s.headers) :
    (markAll activate ids s).heightToId =
      ids.foldl (fun m id => m.insert (s.heightOf id) id) s.heightToId :=
  foldl_markAll heightToId (·.height) 0 (fun m k id => m.insert k id) marks_activate (fun _ _ _ => rfl)
    (fun _ _ h => congrArg (·.height) h) hstored

end Inner

end WalletToolbox.Chaintracks
