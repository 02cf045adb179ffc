import Mathlib.Data.List.Perm.Basic
import Mathlib.Logic.Equiv.Defs
import WalletToolbox.Lib.Closure
import WalletToolbox.Laws.InternalizeAction
import WalletToolbox.Sample

/-! # What a verified AtomicBEEF proves

`Accepted` says when the verification passes, as conditions that name no order of transactions or
bumps.
A transaction that names a bump is held valid for being one of its leaves, but a root is computed
only for the leaves that carry the txid flag, so a verified BEEF may hold a transaction whose root
nobody confirmed. -/

namespace WalletToolbox.Storage

open WalletToolbox.Lib

variable {sdk : Sdk} {tracker : ChainTracker} {ab : Beef}

/-! ## The meaning of a proof -/

/-- A leaf that the verification computes a root for. -/
def Counted (leaf : MerkleLeaf) (hash : String) : Prop :=
  leaf.txid = true ∧ leaf.hash = some hash ∧ hash.isEmpty = false

/-- Some level-0 leaf of a bump of this height has this hash, and this is the root it leads to. -/
def LeafRoot (sdk : Sdk) (ab : Beef) (hash : String) (height : Nat) (root : String) : Prop :=
  ∃ bump ∈ ab.bumps, bump.blockHeight = height ∧ (∃ leaf ∈ bump.path.headD [], leaf.hash = some hash) ∧
    sdk.computeRoot bump (some hash) = .ok root

/-- A root that the verification computes. -/
def CountedRoot (sdk : Sdk) (ab : Beef) (height : Nat) (root : String) : Prop :=
  ∃ bump ∈ ab.bumps, bump.blockHeight = height ∧ ∃ leaf ∈ bump.path.headD [], ∃ hash,
    Counted leaf hash ∧ sdk.computeRoot bump (some hash) = .ok root

/-- A txid that the chain tracker vouches for, at once or through the inputs of unproven
transactions of the BEEF. -/
inductive Proven (sdk : Sdk) (tracker : ChainTracker) (ab : Beef) : String → Prop where
  | leaf {txid : String} {height : Nat} {root : String} :
      LeafRoot sdk ab txid height root → tracker root height = .ok true → Proven sdk tracker ab txid
  | chained {btx : BeefTx} : btx ∈ ab.txs → btx.bumpIndex = none →
      (∀ input ∈ btx.inputTxids, Proven sdk tracker ab input) → Proven sdk tracker ab btx.txid

/-- The same transactions and bumps in another order, with the bump indexes renumbered. -/
def Reordered (ab ab' : Beef) : Prop :=
  ab'.atomicTxid = ab.atomicTxid ∧ ∃ σ : Equiv.Perm Nat, (∀ i, ab'.bumps[σ i]? = ab.bumps[i]?) ∧
    ab'.txs.Perm (ab.txs.map fun btx => { btx with bumpIndex := btx.bumpIndex.map σ })

/-! ## When the verification passes -/

/-- The bump a transaction names exists and has it as a leaf. -/
def NamesLeaf (ab : Beef) (btx : BeefTx) : Prop :=
  ∀ idx, btx.bumpIndex = some idx →
    ∃ bump, ab.bumps[idx]? = some bump ∧ ∃ leaf ∈ bump.path.headD [], leaf.hash = some btx.txid

/-- A txid held valid without looking at inputs: a counted leaf, or a transaction that names a
bump. -/
def Seed (ab : Beef) (txid : String) : Prop :=
  (∃ bump ∈ ab.bumps, ∃ leaf ∈ bump.path.headD [], Counted leaf txid) ∨
    ∃ btx ∈ ab.txs, btx.bumpIndex ≠ none ∧ btx.txid = txid

structure Accepted (sdk : Sdk) (tracker : ChainTracker) (ab : Beef) : Prop where
  distinct : (ab.txs.map (·.txid)).Nodup
  full : ∀ btx ∈ ab.txs, btx.isTxidOnly = false
  computed : ∀ bump ∈ ab.bumps, ∀ leaf ∈ bump.path.headD [], ∀ hash, Counted leaf hash →
    ∃ root, sdk.computeRoot bump (some hash) = .ok root
  agree : ∀ height root root', CountedRoot sdk ab height root → CountedRoot sdk ab height root' →
    root = root'
  named : ∀ btx ∈ ab.txs, NamesLeaf ab btx
  valid : ∀ btx ∈ ab.txs, Closure.Derives BeefTx.txid BeefTx.inputTxids ab.txs (Seed ab) btx.txid
  confirmed : ∀ height root, CountedRoot sdk ab height root → tracker root height = .ok true

theorem checkDistinct_ok (txs : List BeefTx) (seen : List String) :
    checkDistinct seen txs = .ok () ↔
      (txs.map (·.txid)).Nodup ∧ ∀ btx ∈ txs, btx.txid ∉ seen := by
  induction txs generalizing seen with
  | nil => simp [checkDistinct]
  | cons btx txs ih =>
    unfold checkDistinct
    by_cases hseen : btx.txid ∈ seen
    · simp [hseen, invalidBeef]
    · rw [if_neg (by simpa using hseen), ih]
      simp only [List.map_cons, List.nodup_cons, List.mem_map, List.mem_cons, not_or, not_exists,
        not_and, forall_eq_or_imp]
      constructor
      · rintro ⟨hnodup, hfresh⟩
        exact ⟨⟨fun b hb => (hfresh b hb).1, hnodup⟩, hseen, fun b hb => (hfresh b hb).2⟩
      · rintro ⟨⟨hnew, hnodup⟩, _, hfresh⟩
        exact ⟨hnodup, fun b hb => ⟨hnew b hb, hfresh b hb⟩⟩

/-! ### The leaves -/

/-- A leaf with the bump it belongs to and the number of the bump. -/
abbrev LeafOf := (MerklePath × Nat) × MerkleLeaf

def leavesOf (bumps : List (MerklePath × Nat)) : List LeafOf :=
  bumps.flatMap fun b => (b.1.path.headD []).map fun leaf => (b, leaf)

theorem mem_leavesOf {bumps : List MerklePath} {bump : MerklePath} {leaf : MerkleLeaf} :
    (∃ idx, ((bump, idx), leaf) ∈ leavesOf bumps.zipIdx) ↔
      bump ∈ bumps ∧ leaf ∈ bump.path.headD [] := by
  constructor
  · rintro ⟨idx, h⟩
    obtain ⟨b, hb, hleaf⟩ := List.mem_flatMap.mp h
    obtain ⟨leaf', hleaf', heq⟩ := List.mem_map.mp hleaf
    cases heq
    exact ⟨(List.mem_zipIdx' hb).2 ▸ List.getElem_mem _, hleaf'⟩
  · rintro ⟨hbump, hleaf⟩
    obtain ⟨idx, hidx, heq⟩ := List.getElem_of_mem hbump
    refine ⟨idx, List.mem_flatMap.mpr ⟨(bump, idx), ?_, List.mem_map.mpr ⟨leaf, hleaf, rfl⟩⟩⟩
    rw [List.mk_mem_zipIdx_iff_getElem?]
    simp [heq, hidx]

/-- The loop over the bumps and their leaves is one loop. -/
theorem collectLeaves_eq (bumps : List MerklePath) :
    collectLeaves sdk bumps =
      (leavesOf bumps.zipIdx).foldlM (fun acc l => addLeaf sdk l.1.2 l.1.1 acc l.2) ([], []) := by
  unfold collectLeaves leavesOf
  generalize bumps.zipIdx = bumps
  generalize (([], []) : List String × Roots) = acc
  induction bumps generalizing acc with
  | nil => rfl
  | cons b bumps ih =>
    rw [List.foldlM_cons, List.flatMap_cons, List.foldlM_append, List.foldlM_map]
    congr 1
    funext acc
    exact ih acc

/-- What the loop has collected after some leaves. -/
structure Collected (sdk : Sdk) (leaves : List LeafOf) (acc : List String × Roots) : Prop where
  proven : ∀ txid, txid ∈ acc.1 ↔ ∃ l ∈ leaves, Counted l.2 txid
  roots : ∀ height root, (height, root) ∈ acc.2 ↔ ∃ l ∈ leaves, l.1.1.blockHeight = height ∧
    ∃ hash, Counted l.2 hash ∧ sdk.computeRoot l.1.1 (some hash) = .ok root
  agree : ∀ height root root', (height, root) ∈ acc.2 → (height, root') ∈ acc.2 → root = root'
  computed : ∀ l ∈ leaves, ∀ hash, Counted l.2 hash →
    ∃ root, sdk.computeRoot l.1.1 (some hash) = .ok root

theorem addLeaf_of_not_counted {idx : Nat} {bump : MerklePath} {acc : List String × Roots}
    {leaf : MerkleLeaf} (h : ∀ hash, ¬Counted leaf hash) :
    addLeaf sdk idx bump acc leaf = .ok acc := by
  unfold addLeaf
  cases hhash : leaf.hash with
  | none => rfl
  | some hash =>
    have hskip : (!leaf.txid || hash.isEmpty) = true := by
      by_contra hcount
      simp only [Bool.or_eq_true, Bool.not_eq_true', not_or, Bool.not_eq_false,
        Bool.not_eq_true] at hcount
      exact h hash ⟨hcount.1, hhash, hcount.2⟩
    simp only [hskip, if_true]

/-- A counted leaf adds its txid; its root is new for the height or the one recorded for it. -/
theorem addLeaf_of_counted {idx : Nat} {bump : MerklePath} {acc acc' : List String × Roots}
    {leaf : MerkleLeaf} {hash : String} (h : Counted leaf hash) :
    addLeaf sdk idx bump acc leaf = .ok acc' ↔
      ∃ root, sdk.computeRoot bump (some hash) = .ok root ∧
        ((acc.2.find? (·.1 == bump.blockHeight) = some (bump.blockHeight, root) ∧
            acc' = (hash :: acc.1, acc.2)) ∨
          acc.2.find? (·.1 == bump.blockHeight) = none ∧
            acc' = (hash :: acc.1, acc.2 ++ [(bump.blockHeight, root)])) := by
  have hcount : (!leaf.txid || hash.isEmpty) = false := by simp [h.1, h.2.2]
  simp only [addLeaf, h.2.1, hcount, Bool.false_eq_true, if_false]
  cases hroot : sdk.computeRoot bump (some hash) with
  | error e => simp
  | ok root =>
    cases hfind : acc.2.find? (·.1 == bump.blockHeight) with
    | none => simp [eq_comm]
    | some entry =>
      obtain ⟨height, other⟩ := entry
      have hheight : height = bump.blockHeight := by simpa using List.find?_some hfind
      subst hheight
      by_cases hother : other = root
      · simp [hother, eq_comm]
      · simp [hother, invalidBeef]

theorem addLeaf_collected {leaves : List LeafOf} {l : LeafOf} {acc acc' : List String × Roots}
    (hc : Collected sdk leaves acc) (h : addLeaf sdk l.1.2 l.1.1 acc l.2 = .ok acc') :
    Collected sdk (leaves ++ [l]) acc' := by
  by_cases hcount : ∃ hash, Counted l.2 hash
  · obtain ⟨hash, hhash⟩ := hcount
    have huniq : ∀ hash', Counted l.2 hash' → hash' = hash := by
      intro hash' h'
      exact Option.some.inj (h'.2.1.symm.trans hhash.2.1)
    obtain ⟨root, hroot, hcases⟩ := (addLeaf_of_counted hhash).mp h
    have hcomputed : ∀ m ∈ leaves ++ [l], ∀ hash, Counted m.2 hash →
        ∃ root, sdk.computeRoot m.1.1 (some hash) = .ok root := by
      intro m hm hash' hhash'
      rcases List.mem_append.mp hm with hm | hm
      · exact hc.computed m hm hash' hhash'
      · cases List.mem_singleton.mp hm
        cases huniq hash' hhash'
        exact ⟨root, hroot⟩
    have hproven : ∀ txid, txid ∈ hash :: acc.1 ↔ ∃ m ∈ leaves ++ [l], Counted m.2 txid := by
      intro txid
      simp only [List.mem_cons, hc.proven, List.mem_append, List.not_mem_nil, or_false]
      constructor
      · rintro (rfl | ⟨m, hm, hmt⟩)
        · exact ⟨l, .inr rfl, hhash⟩
        · exact ⟨m, .inl hm, hmt⟩
      · rintro ⟨m, hm | rfl, hmt⟩
        · exact .inr ⟨m, hm, hmt⟩
        · exact .inl (huniq txid hmt)
    -- what the new leaf says about a root
    have hnew : ∀ height root', (∃ m ∈ leaves ++ [l], m.1.1.blockHeight = height ∧
        ∃ hash, Counted m.2 hash ∧ sdk.computeRoot m.1.1 (some hash) = .ok root') ↔
        (height, root') ∈ acc.2 ∨ (height, root') = (l.1.1.blockHeight, root) := by
      intro height root'
      rw [hc.roots]
      constructor
      · rintro ⟨m, hm, hheight, hash', hhash', hroot'⟩
        rcases List.mem_append.mp hm with hm | hm
        · exact .inl ⟨m, hm, hheight, hash', hhash', hroot'⟩
        · cases List.mem_singleton.mp hm
          cases huniq hash' hhash'
          rw [hroot] at hroot'
          cases hroot'
          exact .inr (by rw [hheight])
      · rintro (⟨m, hm, hrest⟩ | heq)
        · exact ⟨m, List.mem_append_left _ hm, hrest⟩
        · cases heq
          exact ⟨l, by simp, rfl, hash, hhash, hroot⟩
    rcases hcases with ⟨hfind, rfl⟩ | ⟨hfind, rfl⟩
    · have hmem : (l.1.1.blockHeight, root) ∈ acc.2 := List.mem_of_find?_eq_some hfind
      refine ⟨hproven, ?_, hc.agree, hcomputed⟩
      intro height root'
      rw [hnew]
      constructor
      · exact .inl
      · rintro (h | h)
        · exact h
        · rw [h]
          exact hmem
    · have hfresh : ∀ root', (l.1.1.blockHeight, root') ∉ acc.2 := by
        intro root' hmem
        have := List.find?_eq_none.mp hfind _ hmem
        simp at this
      refine ⟨hproven, ?_, ?_, hcomputed⟩
      · intro height root'
        rw [hnew]
        simp
      · intro height r r' hr hr'
        simp only [List.mem_append, List.mem_singleton] at hr hr'
        rcases hr with hr | hr <;> rcases hr' with hr' | hr'
        · exact hc.agree height r r' hr hr'
        · cases hr'
          exact absurd hr (hfresh r)
        · cases hr
          exact absurd hr' (hfresh r')
        · cases hr
          cases hr'
          rfl
  · have hcount : ∀ hash, ¬Counted l.2 hash := fun hash hh => hcount ⟨hash, hh⟩
    rw [addLeaf_of_not_counted hcount] at h
    cases h
    refine ⟨?_, ?_, hc.agree, ?_⟩
    · intro txid
      rw [hc.proven]
      constructor
      · rintro ⟨m, hm, hmt⟩
        exact ⟨m, List.mem_append_left _ hm, hmt⟩
      · rintro ⟨m, hm, hmt⟩
        rcases List.mem_append.mp hm with hm | hm
        · exact ⟨m, hm, hmt⟩
        · cases List.mem_singleton.mp hm
          exact absurd hmt (hcount txid)
    · intro height root
      rw [hc.roots]
      constructor
      · rintro ⟨m, hm, hrest⟩
        exact ⟨m, List.mem_append_left _ hm, hrest⟩
      · rintro ⟨m, hm, hheight, hash, hmt, hroot⟩
        rcases List.mem_append.mp hm with hm | hm
        · exact ⟨m, hm, hheight, hash, hmt, hroot⟩
        · cases List.mem_singleton.mp hm
          exact absurd hmt (hcount hash)
    · intro m hm hash hmt
      rcases List.mem_append.mp hm with hm | hm
      · exact hc.computed m hm hash hmt
      · cases List.mem_singleton.mp hm
        exact absurd hmt (hcount hash)

theorem Collected.nil : Collected sdk [] ([], []) := by
  constructor <;> simp

theorem foldlM_addLeaf_collected {xs leaves : List LeafOf} {acc acc' : List String × Roots}
    (hc : Collected sdk leaves acc)
    (h : xs.foldlM (fun acc l => addLeaf sdk l.1.2 l.1.1 acc l.2) acc = .ok acc') :
    Collected sdk (leaves ++ xs) acc' := by
  induction xs generalizing leaves acc with
  | nil =>
    cases h
    simpa using hc
  | cons l xs ih =>
    rw [List.foldlM_cons] at h
    obtain ⟨acc₁, hl, hrest⟩ := except_bind_ok h
    simpa using ih (addLeaf_collected hc hl) hrest

/-- The loop goes through when every root can be computed and no two of a height differ. -/
theorem foldlM_addLeaf_progress {xs leaves : List LeafOf} {acc : List String × Roots}
    (hc : Collected sdk leaves acc)
    (hcomputed : ∀ l ∈ xs, ∀ hash, Counted l.2 hash →
      ∃ root, sdk.computeRoot l.1.1 (some hash) = .ok root)
    (hagree : ∀ l ∈ leaves ++ xs, ∀ m ∈ leaves ++ xs, l.1.1.blockHeight = m.1.1.blockHeight →
      ∀ hash hash' root root', Counted l.2 hash → Counted m.2 hash' →
        sdk.computeRoot l.1.1 (some hash) = .ok root →
        sdk.computeRoot m.1.1 (some hash') = .ok root' → root = root') :
    ∃ acc', xs.foldlM (fun acc l => addLeaf sdk l.1.2 l.1.1 acc l.2) acc = .ok acc' := by
  induction xs generalizing leaves acc with
  | nil => exact ⟨acc, rfl⟩
  | cons l xs ih =>
    have hstep : ∃ acc₁, addLeaf sdk l.1.2 l.1.1 acc l.2 = .ok acc₁ := by
      by_cases hcount : ∃ hash, Counted l.2 hash
      · obtain ⟨hash, hhash⟩ := hcount
        obtain ⟨root, hroot⟩ := hcomputed l List.mem_cons_self hash hhash
        cases hfind : acc.2.find? (·.1 == l.1.1.blockHeight) with
        | none => exact ⟨_, (addLeaf_of_counted hhash).mpr ⟨root, hroot, .inr ⟨hfind, rfl⟩⟩⟩
        | some entry =>
          obtain ⟨height, other⟩ := entry
          have hheight : height = l.1.1.blockHeight := by simpa using List.find?_some hfind
          subst hheight
          obtain ⟨m, hm, hm_height, hash', hhash', hroot'⟩ :=
            (hc.roots _ _).mp (List.mem_of_find?_eq_some hfind)
          have hother : other = root :=
            hagree m (List.mem_append_left _ hm) l (by simp) hm_height hash' hash other root hhash'
              hhash hroot' hroot
          subst hother
          exact ⟨_, (addLeaf_of_counted hhash).mpr ⟨_, hroot, .inl ⟨hfind, rfl⟩⟩⟩
      · exact ⟨acc, addLeaf_of_not_counted fun hash hh => hcount ⟨hash, hh⟩⟩
    obtain ⟨acc₁, hacc₁⟩ := hstep
    obtain ⟨acc', hacc'⟩ := ih (addLeaf_collected hc hacc₁)
      (fun m hm => hcomputed m (List.mem_cons_of_mem _ hm)) (by rwa [List.append_assoc, List.singleton_append])
    refine ⟨acc', ?_⟩
    rw [List.foldlM_cons, hacc₁]
    exact hacc'

/-- What the collected leaves and roots are, in terms of the BEEF. -/
theorem collectLeaves_spec {proven : List String} {roots : Roots}
    (h : collectLeaves sdk ab.bumps = .ok (proven, roots)) :
    (∀ txid, txid ∈ proven ↔ ∃ bump ∈ ab.bumps, ∃ leaf ∈ bump.path.headD [], Counted leaf txid) ∧
    (∀ height root, (height, root) ∈ roots ↔ CountedRoot sdk ab height root) ∧
    (∀ height root root', (height, root) ∈ roots → (height, root') ∈ roots → root = root') ∧
    ∀ bump ∈ ab.bumps, ∀ leaf ∈ bump.path.headD [], ∀ hash, Counted leaf hash →
      ∃ root, sdk.computeRoot bump (some hash) = .ok root := by
  rw [collectLeaves_eq] at h
  have hc := foldlM_addLeaf_collected Collected.nil h
  rw [List.nil_append] at hc
  refine ⟨?_, ?_, hc.agree, ?_⟩
  · intro txid
    rw [hc.proven]
    constructor
    · rintro ⟨⟨⟨bump, idx⟩, leaf⟩, hl, hcount⟩
      obtain ⟨hbump, hleaf⟩ := mem_leavesOf.mp ⟨idx, hl⟩
      exact ⟨bump, hbump, leaf, hleaf, hcount⟩
    · rintro ⟨bump, hbump, leaf, hleaf, hcount⟩
      obtain ⟨idx, hl⟩ := mem_leavesOf.mpr ⟨hbump, hleaf⟩
      exact ⟨_, hl, hcount⟩
  · intro height root
    rw [hc.roots]
    constructor
    · rintro ⟨⟨⟨bump, idx⟩, leaf⟩, hl, hheight, hash, hcount, hroot⟩
      obtain ⟨hbump, hleaf⟩ := mem_leavesOf.mp ⟨idx, hl⟩
      exact ⟨bump, hbump, hheight, leaf, hleaf, hash, hcount, hroot⟩
    · rintro ⟨bump, hbump, hheight, leaf, hleaf, hash, hcount, hroot⟩
      obtain ⟨idx, hl⟩ := mem_leavesOf.mpr ⟨hbump, hleaf⟩
      exact ⟨_, hl, hheight, hash, hcount, hroot⟩
  · intro bump hbump leaf hleaf hash hcount
    obtain ⟨idx, hl⟩ := mem_leavesOf.mpr ⟨hbump, hleaf⟩
    exact hc.computed _ hl hash hcount

theorem Accepted.collects (h : Accepted sdk tracker ab) :
    ∃ proven roots, collectLeaves sdk ab.bumps = .ok (proven, roots) := by
  rw [collectLeaves_eq]
  have hcomputed : ∀ l ∈ leavesOf ab.bumps.zipIdx, ∀ hash, Counted l.2 hash →
      ∃ root, sdk.computeRoot l.1.1 (some hash) = .ok root := by
    rintro ⟨⟨bump, idx⟩, leaf⟩ hl hash hcount
    obtain ⟨hbump, hleaf⟩ := mem_leavesOf.mp ⟨idx, hl⟩
    exact h.computed bump hbump leaf hleaf hash hcount
  obtain ⟨⟨proven, roots⟩, hacc⟩ := foldlM_addLeaf_progress Collected.nil hcomputed (by
    rintro ⟨⟨bump, idx⟩, leaf⟩ hl ⟨⟨bump', idx'⟩, leaf'⟩ hl' hheight hash hash' root root' hcount
      hcount' hroot hroot'
    obtain ⟨hbump, hleaf⟩ := mem_leavesOf.mp ⟨idx, hl⟩
    obtain ⟨hbump', hleaf'⟩ := mem_leavesOf.mp ⟨idx', hl'⟩
    exact h.agree bump'.blockHeight root root'
      ⟨bump, hbump, hheight, leaf, hleaf, hash, hcount, hroot⟩
      ⟨bump', hbump', rfl, leaf', hleaf', hash', hcount', hroot'⟩)
  exact ⟨proven, roots, hacc⟩

/-! ### The named bumps -/

theorem checkClaimsBump_ok {valid valid' : List String} {btx : BeefTx} :
    checkClaimsBump ab valid btx = .ok valid' ↔
      NamesLeaf ab btx ∧ valid' = if btx.bumpIndex = none then valid else btx.txid :: valid := by
  unfold checkClaimsBump NamesLeaf
  cases hidx : btx.bumpIndex with
  | none => simp [eq_comm]
  | some idx =>
    cases hbump : ab.bumps[idx]? with
    | none => simp [invalidBeef, hbump]
    | some bump =>
      by_cases hleaf : ∃ leaf ∈ bump.path.headD [], leaf.hash = some btx.txid
      · have hany : (bump.path.headD []).any (·.hash == some btx.txid) = true := by
          simpa [List.any_eq_true] using hleaf
        simp only [hbump, hany, if_true]
        constructor
        · intro h
          cases h
          refine ⟨?_, rfl⟩
          intro i hi
          cases hi
          exact ⟨bump, hbump, hleaf⟩
        · rintro ⟨_, rfl⟩
          rfl
      · have hany : (bump.path.headD []).any (·.hash == some btx.txid) = false := by
          rw [List.any_eq_false]
          intro leaf hl heq
          exact hleaf ⟨leaf, hl, by simpa using heq⟩
        simp only [hbump, hany, Bool.false_eq_true, if_false, invalidBeef, reduceCtorEq, false_iff,
          not_and]
        intro hnamed
        obtain ⟨bump', hbump', hleaf'⟩ := hnamed idx rfl
        rw [hbump] at hbump'
        cases hbump'
        exact absurd hleaf' hleaf

theorem foldlM_checkClaimsBump_ok {txs : List BeefTx} {valid valid' : List String}
    (h : txs.foldlM (checkClaimsBump ab) valid = .ok valid') :
    (∀ btx ∈ txs, NamesLeaf ab btx) ∧
      ∀ txid, txid ∈ valid' ↔ txid ∈ valid ∨ ∃ btx ∈ txs, btx.bumpIndex ≠ none ∧ btx.txid = txid := by
  induction txs generalizing valid with
  | nil =>
    cases h
    simp
  | cons btx txs ih =>
    rw [List.foldlM_cons] at h
    obtain ⟨valid₁, hbtx, hrest⟩ := except_bind_ok h
    obtain ⟨hnamed, rfl⟩ := checkClaimsBump_ok.mp hbtx
    obtain ⟨hall, hmem⟩ := ih hrest
    refine ⟨by simpa using ⟨hnamed, hall⟩, ?_⟩
    intro txid
    rw [hmem]
    by_cases hidx : btx.bumpIndex = none
    · simp [hidx]
    · rw [if_neg hidx]
      simp only [List.mem_cons, ne_eq, exists_eq_or_imp, hidx, not_false_eq_true, true_and]
      constructor
      · rintro ((rfl | h) | h)
        · exact .inr (.inl rfl)
        · exact .inl h
        · exact .inr (.inr h)
      · rintro (h | rfl | h)
        · exact .inl (.inr h)
        · exact .inl (.inl rfl)
        · exact .inr h

theorem foldlM_checkClaimsBump_progress {txs : List BeefTx} (h : ∀ btx ∈ txs, NamesLeaf ab btx)
    (valid : List String) : ∃ valid', txs.foldlM (checkClaimsBump ab) valid = .ok valid' := by
  induction txs generalizing valid with
  | nil => exact ⟨valid, rfl⟩
  | cons btx txs ih =>
    obtain ⟨valid', hrest⟩ := ih (fun b hb => h b (List.mem_cons_of_mem _ hb))
      (if btx.bumpIndex = none then valid else btx.txid :: valid)
    refine ⟨valid', ?_⟩
    rw [List.foldlM_cons, checkClaimsBump_ok.mpr ⟨h btx List.mem_cons_self, rfl⟩]
    exact hrest

theorem checkRoots_ok {roots : Roots} :
    checkRoots tracker roots = .ok () ↔
      ∀ height root, (height, root) ∈ roots → tracker root height = .ok true := by
  induction roots with
  | nil => simp [checkRoots]
  | cons entry roots ih =>
    obtain ⟨height, root⟩ := entry
    unfold checkRoots
    cases htracker : tracker root height with
    | error e =>
      simp only [List.mem_cons, reduceCtorEq, false_iff]
      intro h
      rw [h height root (.inl rfl)] at htracker
      cases htracker
    | ok confirmed =>
      cases confirmed with
      | false =>
        simp only [List.mem_cons, invalidBeef, reduceCtorEq, false_iff]
        intro h
        rw [h height root (.inl rfl)] at htracker
        cases htracker
      | true =>
        simp only [ih, List.mem_cons]
        constructor
        · rintro h height' root' (heq | hmem)
          · cases heq
            exact htracker
          · exact h height' root' hmem
        · intro h height' root' hmem
          exact h height' root' (.inr hmem)

/-! ### The whole verification -/

/-- The passes over the unproven transactions reach everything that follows from the seed. -/
theorem mem_validFixpoint {valid : List String} {txid : String} :
    txid ∈ validFixpoint ab.txs valid ↔
      Closure.Derives BeefTx.txid BeefTx.inputTxids ab.txs (· ∈ valid) txid :=
  Closure.mem_passes

theorem verifyAtomicBeef_ok_iff :
    verifyAtomicBeef sdk tracker ab = .ok () ↔ Accepted sdk tracker ab := by
  constructor
  · intro h
    unfold verifyAtomicBeef at h
    obtain ⟨_, hdistinct, h⟩ := except_bind_ok h
    cases hfull : ab.txs.find? (·.isTxidOnly) with
    | some btx =>
      simp only [hfull] at h
      cases h
    | none =>
      simp only [hfull] at h
      obtain ⟨⟨proven, roots⟩, hcollect, h⟩ := except_bind_ok h
      obtain ⟨claimed, hclaimed, h⟩ := except_bind_ok h
      cases hvalid : ab.txs.find? fun btx => !(validFixpoint ab.txs claimed).contains btx.txid with
      | some btx =>
        simp only [hvalid] at h
        cases h
      | none =>
        simp only [hvalid] at h
        obtain ⟨hproven, hroots, hagree, hcomputed⟩ := collectLeaves_spec hcollect
        obtain ⟨hnamed, hclaims⟩ := foldlM_checkClaimsBump_ok hclaimed
        have hseed : ∀ txid, txid ∈ claimed ↔ Seed ab txid := by
          intro txid
          rw [hclaims, hproven]
          rfl
        refine ⟨((checkDistinct_ok _ _).mp hdistinct).1, ?_, hcomputed, ?_, hnamed, ?_, ?_⟩
        · intro btx hbtx
          simpa using List.find?_eq_none.mp hfull btx hbtx
        · intro height root root' hr hr'
          exact hagree height root root' ((hroots _ _).mpr hr) ((hroots _ _).mpr hr')
        · intro btx hbtx
          have hin : btx.txid ∈ validFixpoint ab.txs claimed := by
            simpa using List.find?_eq_none.mp hvalid btx hbtx
          exact (mem_validFixpoint.mp hin).mono (fun _ hb => hb) fun txid => (hseed txid).mp
        · intro height root hr
          exact checkRoots_ok.mp h height root ((hroots _ _).mpr hr)
  · intro h
    obtain ⟨proven, roots, hcollect⟩ := h.collects
    obtain ⟨claimed, hclaimed⟩ := foldlM_checkClaimsBump_progress h.named proven
    obtain ⟨hproven, hroots, _, _⟩ := collectLeaves_spec hcollect
    obtain ⟨_, hclaims⟩ := foldlM_checkClaimsBump_ok hclaimed
    have hfull : ab.txs.find? (·.isTxidOnly) = none := by
      rw [List.find?_eq_none]
      intro btx hbtx
      simp [h.full btx hbtx]
    have hvalid : (ab.txs.find? fun btx => !(validFixpoint ab.txs claimed).contains btx.txid) =
        none := by
      rw [List.find?_eq_none]
      intro btx hbtx
      have hin : btx.txid ∈ validFixpoint ab.txs claimed := by
        rw [mem_validFixpoint]
        apply (h.valid btx hbtx).mono (fun _ hb => hb)
        intro txid hseed
        rw [hclaims, hproven]
        exact hseed
      simpa using hin
    have hconfirmed : checkRoots tracker roots = .ok () := by
      rw [checkRoots_ok]
      intro height root hr
      exact h.confirmed height root ((hroots _ _).mp hr)
    unfold verifyAtomicBeef
    rw [(checkDistinct_ok _ _).mpr ⟨h.distinct, by simp⟩]
    simp only [hfull, hcollect, hclaimed, hvalid, hconfirmed, bind, Except.bind]

/-! ## Order -/

/-- The transactions of a reordered BEEF are those of the first with their bump renumbered. -/
theorem Accepted.reordered {ab' : Beef} (h : Accepted sdk tracker ab) (hr : Reordered ab ab') :
    Accepted sdk tracker ab' := by
  obtain ⟨_, σ, hbumps, htxs⟩ := hr
  have hbump : ∀ bump, bump ∈ ab'.bumps ↔ bump ∈ ab.bumps := by
    intro bump
    rw [List.mem_iff_getElem?, List.mem_iff_getElem?]
    constructor
    · rintro ⟨i, hi⟩
      exact ⟨σ.symm i, by rw [← hbumps, Equiv.apply_symm_apply, hi]⟩
    · rintro ⟨i, hi⟩
      exact ⟨σ i, by rw [hbumps, hi]⟩
  have hmem : ∀ {btx'}, btx' ∈ ab'.txs →
      ∃ btx ∈ ab.txs, { btx with bumpIndex := btx.bumpIndex.map σ } = btx' := by
    intro btx' hbtx'
    simpa using htxs.mem_iff.mp hbtx'
  have hmem' : ∀ {btx}, btx ∈ ab.txs →
      { btx with bumpIndex := btx.bumpIndex.map σ } ∈ ab'.txs := by
    intro btx hbtx
    exact htxs.mem_iff.mpr (List.mem_map_of_mem hbtx)
  have hroot : ∀ height root, CountedRoot sdk ab' height root ↔ CountedRoot sdk ab height root := by
    intro height root
    simp only [CountedRoot, hbump]
  have hseed : ∀ txid, Seed ab txid → Seed ab' txid := by
    rintro txid (⟨bump, hb, hleaf⟩ | ⟨btx, hbtx, hidx, rfl⟩)
    · exact .inl ⟨bump, (hbump bump).mpr hb, hleaf⟩
    · exact .inr ⟨_, hmem' hbtx, by simpa using hidx, rfl⟩
  constructor
  case distinct =>
    have hkeys := htxs.map (·.txid)
    rw [List.map_map] at hkeys
    exact hkeys.nodup_iff.mpr h.distinct
  case full =>
    intro btx' hbtx'
    obtain ⟨btx, hbtx, rfl⟩ := hmem hbtx'
    exact h.full btx hbtx
  case computed =>
    intro bump hb
    exact h.computed bump ((hbump bump).mp hb)
  case agree =>
    intro height root root' hr hr'
    exact h.agree height root root' ((hroot _ _).mp hr) ((hroot _ _).mp hr')
  case named =>
    intro btx' hbtx' idx hidx
    obtain ⟨btx, hbtx, rfl⟩ := hmem hbtx'
    obtain ⟨i, hi, rfl⟩ := Option.map_eq_some_iff.mp hidx
    rw [hbumps]
    exact h.named btx hbtx i hi
  case valid =>
    intro btx' hbtx'
    obtain ⟨btx, hbtx, rfl⟩ := hmem hbtx'
    have hderives := h.valid btx hbtx
    show Closure.Derives BeefTx.txid BeefTx.inputTxids ab'.txs (Seed ab') btx.txid
    generalize btx.txid = txid at hderives
    induction hderives with
    | seed hs => exact .seed (hseed _ hs)
    | @step a ha _ ih =>
      have hstep : Closure.Derives BeefTx.txid BeefTx.inputTxids ab'.txs (Seed ab')
          { a with bumpIndex := a.bumpIndex.map σ }.txid := .step (hmem' ha) ih
      exact hstep
  case confirmed =>
    intro height root hr
    exact h.confirmed height root ((hroot _ _).mp hr)

theorem Reordered.symm {ab' : Beef} (h : Reordered ab ab') : Reordered ab' ab := by
  obtain ⟨hatomic, σ, hbumps, htxs⟩ := h
  refine ⟨hatomic.symm, σ.symm, ?_, ?_⟩
  · intro i
    rw [← hbumps, Equiv.apply_symm_apply]
  · have hback := (htxs.map fun btx => { btx with bumpIndex := btx.bumpIndex.map σ.symm }).symm
    rw [List.map_map] at hback
    have hid : ((fun btx : BeefTx => { btx with bumpIndex := btx.bumpIndex.map σ.symm }) ∘
        fun btx : BeefTx => { btx with bumpIndex := btx.bumpIndex.map σ }) = id := by
      funext btx
      cases btx with
      | mk txid tx bumpIndex inputTxids => cases bumpIndex <;> simp
    rwa [hid, List.map_id] at hback

/-! ## What is proven -/

/-- The root of some leaf with this txid is among those that the verification computes. -/
def RootCollected (sdk : Sdk) (ab : Beef) (txid : String) : Prop :=
  ∃ height root, LeafRoot sdk ab txid height root ∧ CountedRoot sdk ab height root

theorem Accepted.proven (h : Accepted sdk tracker ab)
    (hnamed : ∀ btx ∈ ab.txs, btx.bumpIndex ≠ none → RootCollected sdk ab btx.txid) {txid : String}
    (hvalid : Closure.Derives BeefTx.txid BeefTx.inputTxids ab.txs (Seed ab) txid) :
    Proven sdk tracker ab txid := by
  have hclaim : ∀ btx ∈ ab.txs, btx.bumpIndex ≠ none → Proven sdk tracker ab btx.txid := by
    intro btx hbtx hidx
    obtain ⟨height, root, hleaf, hcounted⟩ := hnamed btx hbtx hidx
    exact .leaf hleaf (h.confirmed height root hcounted)
  induction hvalid with
  | @seed txid hs =>
    rcases hs with ⟨bump, hbump, leaf, hleaf, hcount⟩ | ⟨btx, hbtx, hidx, rfl⟩
    · obtain ⟨root, hroot⟩ := h.computed bump hbump leaf hleaf txid hcount
      exact .leaf ⟨bump, hbump, rfl, ⟨leaf, hleaf, hcount.2.1⟩, hroot⟩
        (h.confirmed _ root ⟨bump, hbump, rfl, leaf, hleaf, txid, hcount, hroot⟩)
    · exact hclaim btx hbtx hidx
  | @step btx hbtx _ ih =>
    by_cases hidx : btx.bumpIndex = none
    · exact .chained hbtx hidx ih
    · exact hclaim btx hbtx hidx

/-- The tracker that confirms what the verification asks it about and nothing else. -/
noncomputable def exactTracker (sdk : Sdk) (ab : Beef) : ChainTracker := fun root height =>
  open Classical in .ok (decide (CountedRoot sdk ab height root))

theorem Accepted.exactTracker (h : Accepted sdk tracker ab) :
    Accepted sdk (exactTracker sdk ab) ab :=
  { h with confirmed := fun height root hr => by simp [Storage.exactTracker, hr] }

/-- A transaction that names a bump is proven only by a confirmed leaf. -/
theorem Accepted.rootCollected (h : Accepted sdk tracker ab) {btx : BeefTx} (hbtx : btx ∈ ab.txs)
    (hidx : btx.bumpIndex ≠ none) (hproven : Proven sdk (Storage.exactTracker sdk ab) ab btx.txid) :
    RootCollected sdk ab btx.txid := by
  generalize htxid : btx.txid = txid at hproven
  cases hproven with
  | @leaf _ height root hleaf hconfirmed =>
    exact ⟨height, root, hleaf, by simpa [Storage.exactTracker] using hconfirmed⟩
  | @chained btx' hbtx' hnone _ =>
    have heq : btx = btx' := List.inj_on_of_nodup_map h.distinct hbtx hbtx' htxid
    rw [heq] at hidx
    exact absurd hnone hidx

/-- Every verified BEEF is proven exactly if each transaction that names a bump has a leaf whose
root is computed, for it or for a flagged leaf of the height; and the verdict does not depend on
the order of transactions and bumps. -/
theorem verifyAtomicBeef_proven_iff (sdk : Sdk) :
    (∀ ab, (∀ tracker, verifyAtomicBeef sdk tracker ab = .ok () →
        ∀ btx ∈ ab.txs, Proven sdk tracker ab btx.txid) ↔
      ((∃ tracker, verifyAtomicBeef sdk tracker ab = .ok ()) →
        ∀ btx ∈ ab.txs, btx.bumpIndex ≠ none → RootCollected sdk ab btx.txid)) ∧
    ∀ tracker ab ab', Reordered ab ab' →
      (verifyAtomicBeef sdk tracker ab = .ok () ↔ verifyAtomicBeef sdk tracker ab' = .ok ()) := by
  constructor
  · intro ab
    constructor
    · rintro hproven ⟨tracker, hok⟩ btx hbtx hidx
      have hacc := verifyAtomicBeef_ok_iff.mp hok
      exact hacc.rootCollected hbtx hidx
        (hproven _ (verifyAtomicBeef_ok_iff.mpr hacc.exactTracker) btx hbtx)
    · intro hnamed tracker hok btx hbtx
      have hacc := verifyAtomicBeef_ok_iff.mp hok
      exact hacc.proven (hnamed ⟨tracker, hok⟩) (hacc.valid btx hbtx)
  · intro tracker ab ab' hr
    rw [verifyAtomicBeef_ok_iff, verifyAtomicBeef_ok_iff]
    exact ⟨fun h => h.reordered hr, fun h => h.reordered hr.symm⟩

/-- The funding as a BEEF whose only leaf for it lacks the txid flag. -/
def unflaggedBeef : Beef :=
  { Sample.fundingBeef with
    bumps := [{ blockHeight := 100
                path := [[⟨0, some Sample.fundingTxid, false, false⟩,
                  ⟨1, some Sample.fundingSibling, false, false⟩]] }] }

/-- It is accepted even by a tracker that confirms nothing. -/
theorem unflagged_leaf_unproven :
    ¬∀ (sdk : Sdk) (tracker : ChainTracker) (ab : Beef), verifyAtomicBeef sdk tracker ab = .ok () →
      ∀ btx ∈ ab.txs, Proven sdk tracker ab btx.txid := by
  intro h
  have hok : verifyAtomicBeef Sample.sdk (fun _ _ => .ok false) unflaggedBeef = .ok () := by
    decide +kernel
  have hproven := h Sample.sdk (fun _ _ => .ok false) unflaggedBeef hok Sample.fundingBeefTx (by
    simp [unflaggedBeef, Sample.fundingBeef])
  generalize Sample.fundingBeefTx.txid = txid at hproven
  cases hproven with
  | leaf _ hconfirmed => cases hconfirmed
  | @chained btx hbtx hnone _ =>
    cases List.mem_singleton.mp hbtx
    cases hnone

end WalletToolbox.Storage
