import Mathlib.Logic.Equiv.List
import WalletToolbox.Lib.Merkle
import WalletToolbox.Services.WhatsOnChain

/-! # The converted proof keeps the root

A proof lists the partners on the way from a transaction to the merkle root of its block.
The path that is made of it has them where the rule of the BUMP format looks for them, so the way up
through the path is the way up through the tree. -/

namespace WalletToolbox

open WalletToolbox.Lib
open WalletToolbox.Storage (Bytes WalletError)

/-! ## The rule of the BUMP format -/

section Bump

variable (combine : String → String → String)

/-- The hash above a node and its partner; a duplicate repeats the node. -/
def parentHash (offset : Nat) (hash : String) (leaf : MerkleLeaf) : Option String :=
  if leaf.duplicate then some (combine hash hash)
  else leaf.hash.map fun sibling =>
    if offset % 2 = 1 then combine sibling hash else combine hash sibling

/-- The hash at the end of a way up through the levels of a path. The partner of a node is the leaf
at the other offset of the pair. -/
def climbPath : List (List MerkleLeaf) → Nat → String → Option String
  | [], _, hash => some hash
  | leaves :: rest, offset, hash => do
    let leaf ← leaves.find? fun leaf => leaf.offset = offset ^^^ 1
    let parent ← parentHash combine offset hash leaf
    climbPath rest (offset / 2) parent

/-- The root that a path gives for a txid. -/
def MerklePath.rootFor (mp : MerklePath) (txid : String) : Option String := do
  let leaf ← (mp.path.headD []).find? fun leaf => leaf.hash = some txid
  climbPath combine mp.path leaf.offset txid

/-- What the constructor of the SDK asks of a path: no level is empty or has an offset twice, a
level above the lowest has only partners on the way up from the lowest, and all hashes of the lowest
level have one root. -/
structure ValidPath (path : List (List MerkleLeaf)) : Prop where
  levels : ∀ leaves ∈ path, leaves ≠ [] ∧ (leaves.map (·.offset)).Nodup
  legal : ∀ level leaves, path[level + 1]? = some leaves → ∀ leaf ∈ leaves,
    ∃ base ∈ path.headD [], base.duplicate = false ∧
      leaf.offset = (base.offset / 2 ^ (level + 1)) ^^^ 1
  root : ∃ root, ∀ leaf ∈ path.headD [], ∀ hash, leaf.hash = some hash →
    climbPath combine path leaf.offset hash = some root

/-- The SDK takes a valid path and gives it back unchanged when it has been written. -/
def PathSdk.KeepsLeaves (sdk : PathSdk) : Prop :=
  ∀ blockHeight path, ValidPath combine path →
    sdk.newPath blockHeight path = .ok { blockHeight, path } ∧
      ∃ bytes, sdk.bumpBytes { blockHeight, path } = .ok bytes ∧
        sdk.parseBump bytes = .ok { blockHeight, path }

/-- The nodes of a proof: the partners bottom up, with a mark where a node is its own. -/
def tscNodes (ids : List String) (index : Nat) : List String :=
  (Merkle.siblings combine ids index).map (·.getD "*")

end Bump

/-! ## One level -/

section Levels

variable {combine : String → String → String} {txid : String} {index : Nat}

theorem siblingLeaf_offset (level idx : Nat) (node : String) :
    (siblingLeaf txid level idx node).offset = idx ^^^ 1 := by
  rw [Merkle.xor_one_eq, siblingLeaf]
  split_ifs <;> rfl

theorem siblingLeaf_txid (level idx : Nat) (node : String) :
    (siblingLeaf txid level idx node).txid = false := by
  rw [siblingLeaf]
  split_ifs <;> rfl

/-- The leaf of a node is read as the partner that the node stands for. -/
theorem parentHash_siblingLeaf {level idx : Nat} {sibling : Option String}
    (hmark : ∀ hash, sibling = some hash → hash ≠ "*" ∧ (level = 0 → hash ≠ txid)) (hash : String) :
    parentHash combine idx hash (siblingLeaf txid level idx (sibling.getD "*")) =
      some (Merkle.above combine idx hash sibling) := by
  cases sibling with
  | none => simp [parentHash, siblingLeaf, Merkle.above]
  | some partner =>
    obtain ⟨hstar, htxid⟩ := hmark partner rfl
    have hplain : ¬(partner = "*" ∨ (level = 0 ∧ partner = txid)) := by
      rintro (h | ⟨h, h'⟩)
      · exact hstar h
      · exact htxid h h'
    simp [parentHash, siblingLeaf, Merkle.above, hplain]

/-- A level is left through the partner of the node. -/
theorem climbPath_cons {leaves : List MerkleLeaf} {rest : List (List MerkleLeaf)} {offset : Nat}
    {hash parent : String} {leaf : MerkleLeaf}
    (hfind : leaves.find? (fun leaf => leaf.offset = offset ^^^ 1) = some leaf)
    (hparent : parentHash combine offset hash leaf = some parent) :
    climbPath combine (leaves :: rest) offset hash = climbPath combine rest (offset / 2) parent := by
  rw [climbPath, hfind, Option.bind_eq_bind, Option.bind_some, hparent, Option.bind_eq_bind,
    Option.bind_some]

/-- The way up through the levels above the lowest. -/
theorem climbPath_pathLevels {siblings : List (Option String)}
    (hmark : ∀ hash, some hash ∈ siblings → hash ≠ "*") (level idx : Nat) (hash : String) :
    climbPath combine (pathLevels txid index (level + 1) idx (siblings.map (·.getD "*"))) idx hash =
      some (Merkle.climb combine siblings idx hash) := by
  induction siblings generalizing level idx hash with
  | nil => rfl
  | cons sibling rest ih =>
    have hparent : parentHash combine idx hash
        (siblingLeaf txid (level + 1) idx (sibling.getD "*")) =
          some (Merkle.above combine idx hash sibling) :=
      parentHash_siblingLeaf
        (fun h heq => ⟨hmark h (heq ▸ List.mem_cons_self), fun h => absurd h (Nat.succ_ne_zero level)⟩)
        hash
    rw [List.map_cons, pathLevels, if_neg (Nat.succ_ne_zero level), Merkle.climb,
      climbPath_cons (List.find?_cons_of_pos (decide_eq_true (siblingLeaf_offset _ _ _))) hparent]
    exact ih (fun h hmem => hmark h (List.mem_cons_of_mem _ hmem)) _ _ _

/-- A level above the lowest has one leaf, the partner on the way up. -/
theorem getElem?_pathLevels {level idx k : Nat} {nodes : List String} {leaves : List MerkleLeaf}
    (h : (pathLevels txid index (level + 1) idx nodes)[k]? = some leaves) :
    ∃ leaf, leaves = [leaf] ∧ leaf.offset = (idx / 2 ^ k) ^^^ 1 ∧ leaf.txid = false := by
  induction nodes generalizing level idx k with
  | nil => simp [pathLevels] at h
  | cons node rest ih =>
    rw [pathLevels, if_neg (Nat.succ_ne_zero level)] at h
    cases k with
    | zero =>
      cases h
      exact ⟨_, rfl, by rw [siblingLeaf_offset, Nat.pow_zero, Nat.div_one], siblingLeaf_txid _ _ _⟩
    | succ k =>
      obtain ⟨leaf, rfl, hoffset, hflag⟩ := ih h
      refine ⟨leaf, rfl, ?_, hflag⟩
      rw [hoffset, Nat.div_div_eq_div_mul, Nat.pow_succ, Nat.mul_comm]

/-! ## The lowest level -/

/-- The leaf of the transaction itself. -/
def provenLeaf (txid : String) (index : Nat) : MerkleLeaf :=
  { offset := index, hash := some txid, txid := true }

/-- The two leaves of the lowest level, in the order of their offsets. -/
def lowestLevel (txid : String) (index : Nat) (node : String) : List MerkleLeaf :=
  if index % 2 = 1 then [siblingLeaf txid 0 index node, provenLeaf txid index]
  else [provenLeaf txid index, siblingLeaf txid 0 index node]

theorem pathLevels_lowest (node : String) (nodes : List String) :
    pathLevels txid index 0 index (node :: nodes) =
      lowestLevel txid index node :: pathLevels txid index 1 (index / 2) nodes :=
  rfl

theorem mem_lowestLevel {node : String} {leaf : MerkleLeaf} :
    leaf ∈ lowestLevel txid index node ↔
      leaf = provenLeaf txid index ∨ leaf = siblingLeaf txid 0 index node := by
  rw [lowestLevel]
  split_ifs
  · rw [List.mem_pair, or_comm]
  · rw [List.mem_pair]

/-- A search that only one of the two leaves satisfies finds that leaf. -/
theorem find?_lowestLevel {node : String} {p : MerkleLeaf → Bool} {leaf : MerkleLeaf}
    (hmem : leaf ∈ lowestLevel txid index node) (hp : p leaf = true)
    (honly : ∀ other ∈ lowestLevel txid index node, p other = true → other = leaf) :
    (lowestLevel txid index node).find? p = some leaf := by
  cases hfind : (lowestLevel txid index node).find? p with
  | none => exact absurd hp (by simpa using List.find?_eq_none.mp hfind leaf hmem)
  | some other =>
    rw [honly other (List.mem_of_find?_eq_some hfind) (List.find?_some hfind)]

theorem siblingLeaf_hash (node : String) :
    (siblingLeaf txid 0 index node).hash = if node = "*" ∨ node = txid then none else some node := by
  simp only [siblingLeaf, true_and, apply_ite MerkleLeaf.hash]

theorem siblingLeaf_hash_ne (node : String) : (siblingLeaf txid 0 index node).hash ≠ some txid := by
  rw [siblingLeaf_hash]
  split_ifs with hplain
  · exact Option.some_ne_none txid ∘ Eq.symm
  · intro hhash
    exact hplain (.inr (Option.some.inj hhash))

theorem find?_sibling (node : String) :
    (lowestLevel txid index node).find? (fun leaf => leaf.offset = index ^^^ 1) =
      some (siblingLeaf txid 0 index node) := by
  refine find?_lowestLevel (mem_lowestLevel.mpr (.inr rfl))
    (decide_eq_true (siblingLeaf_offset _ _ _)) ?_
  intro other hother hoffset
  rcases mem_lowestLevel.mp hother with rfl | rfl
  · exact absurd (of_decide_eq_true hoffset).symm (Merkle.xor_one_ne index)
  · rfl

theorem find?_proven_offset (node : String) :
    (lowestLevel txid index node).find? (fun leaf => leaf.offset = (index ^^^ 1) ^^^ 1) =
      some (provenLeaf txid index) := by
  rw [Nat.xor_assoc, Nat.xor_self, Nat.xor_zero]
  refine find?_lowestLevel (mem_lowestLevel.mpr (.inl rfl)) (decide_eq_true rfl) ?_
  intro other hother hoffset
  rcases mem_lowestLevel.mp hother with rfl | rfl
  · rfl
  · rw [decide_eq_true_eq, siblingLeaf_offset] at hoffset
    exact absurd hoffset (Merkle.xor_one_ne index)

theorem find?_proven_hash (node : String) :
    (lowestLevel txid index node).find? (fun leaf => leaf.hash = some txid) =
      some (provenLeaf txid index) := by
  refine find?_lowestLevel (mem_lowestLevel.mpr (.inl rfl)) (decide_eq_true rfl) ?_
  intro other hother hhash
  rcases mem_lowestLevel.mp hother with rfl | rfl
  · rfl
  · exact absurd (of_decide_eq_true hhash) (siblingLeaf_hash_ne node)

end Levels

/-! ## A block -/

section Block

variable {combine : String → String → String} {ids : List String} {txid : String} {index : Nat}

/-- The ids of a block and the hashes over them: the ids are distinct, and no hash is the mark of a
duplicate. -/
structure Block (combine : String → String → String) (ids : List String) : Prop where
  two : 2 ≤ ids.length
  distinct : ids.Nodup
  unmarked : "*" ∉ ids
  combined : ∀ a b, combine a b ≠ "*"

/-- The levels of the converted proof. -/
abbrev proofLevels (combine : String → String → String) (ids : List String) (txid : String)
    (index : Nat) : List (List MerkleLeaf) :=
  pathLevels txid index 0 index (tscNodes combine ids index)

theorem Block.partner_ne (hb : Block combine ids) (hindex : ids[index]? = some txid) {hash : String}
    (hhash : ids[index ^^^ 1]? = some hash) : hash ≠ "*" ∧ hash ≠ txid := by
  refine ⟨fun h => hb.unmarked (h ▸ List.mem_of_getElem? hhash), ?_⟩
  rintro rfl
  have hlt := (List.getElem?_eq_some_iff.mp hindex).1
  exact Merkle.xor_one_ne index ((List.getElem?_inj hlt hb.distinct).mp (hindex.trans hhash.symm)).symm

theorem Block.above_unmarked (hb : Block combine ids) {hash : String} {i : Nat}
    (h : some hash ∈ Merkle.siblings combine (Merkle.nextLevel combine ids) i) : hash ≠ "*" := by
  rcases Merkle.mem_siblings h with hmem | ⟨a, b, rfl⟩
  · obtain ⟨a, b, rfl⟩ := Merkle.mem_nextLevel hmem
    exact hb.combined a b
  · exact hb.combined a b

theorem Block.proofLevels_eq (hb : Block combine ids) :
    proofLevels combine ids txid index =
      lowestLevel txid index (ids[index ^^^ 1]?.getD "*") ::
        pathLevels txid index 1 (index / 2)
          ((Merkle.siblings combine (Merkle.nextLevel combine ids) (index / 2)).map (·.getD "*")) := by
  rw [proofLevels, tscNodes, Merkle.siblings_of_two_le hb.two, List.map_cons, pathLevels_lowest]

/-- The way up from the transaction. -/
theorem Block.climb_proven (hb : Block combine ids) (hindex : ids[index]? = some txid) :
    climbPath combine (proofLevels combine ids txid index) index txid = Merkle.root combine ids := by
  have hparent : parentHash combine index txid
      (siblingLeaf txid 0 index (ids[index ^^^ 1]?.getD "*")) =
        some (Merkle.above combine index txid ids[index ^^^ 1]?) :=
    parentHash_siblingLeaf
      (fun hash hhash => ⟨(hb.partner_ne hindex hhash).1, fun _ => (hb.partner_ne hindex hhash).2⟩) _
  rw [hb.proofLevels_eq, climbPath_cons (find?_sibling _) hparent,
    climbPath_pathLevels (fun _ h => hb.above_unmarked h), Merkle.root_eq_climb hindex,
    Merkle.siblings_of_two_le hb.two, Merkle.climb]

/-- The way up from its partner. -/
theorem Block.climb_sibling (hb : Block combine ids) (hindex : ids[index]? = some txid)
    {hash : String} (hhash : ids[index ^^^ 1]? = some hash) :
    climbPath combine (proofLevels combine ids txid index) (index ^^^ 1) hash =
      Merkle.root combine ids := by
  have hpartner : ids[(index ^^^ 1) ^^^ 1]? = some txid := by
    rw [Nat.xor_assoc, Nat.xor_self, Nat.xor_zero, hindex]
  have hparent : parentHash combine (index ^^^ 1) hash (provenLeaf txid index) =
      some (Merkle.above combine (index ^^^ 1) hash (some txid)) :=
    rfl
  rw [hb.proofLevels_eq, climbPath_cons (find?_proven_offset _) hparent, Merkle.xor_one_div_two,
    climbPath_pathLevels (fun _ h => hb.above_unmarked h), Merkle.root_eq_climb hhash,
    Merkle.siblings_of_two_le hb.two, Merkle.climb, Merkle.xor_one_div_two, hpartner]

theorem Block.valid (hb : Block combine ids) (hindex : ids[index]? = some txid) :
    ValidPath combine (proofLevels combine ids txid index) := by
  have hroot : ∃ root, Merkle.root combine ids = some root :=
    ⟨_, Merkle.root_eq_climb hindex⟩
  refine ⟨?_, ?_, ?_⟩
  · intro leaves hleaves
    rw [hb.proofLevels_eq] at hleaves
    rcases List.mem_cons.mp hleaves with rfl | hleaves
    · rw [lowestLevel]
      split_ifs
      · refine ⟨List.cons_ne_nil _ _, List.pairwise_pair.mpr ?_⟩
        exact ne_of_eq_of_ne (siblingLeaf_offset ..) (Merkle.xor_one_ne index)
      · refine ⟨List.cons_ne_nil _ _, List.pairwise_pair.mpr ?_⟩
        exact ne_of_ne_of_eq (Merkle.xor_one_ne index).symm (siblingLeaf_offset ..).symm
    · obtain ⟨k, hk⟩ := List.mem_iff_getElem?.mp hleaves
      obtain ⟨leaf, rfl, -⟩ := getElem?_pathLevels hk
      simp
  · intro level leaves hleaves leaf hleaf
    rw [hb.proofLevels_eq, List.getElem?_cons_succ] at hleaves
    obtain ⟨only, rfl, hoffset, -⟩ := getElem?_pathLevels hleaves
    rw [List.mem_singleton] at hleaf
    subst hleaf
    refine ⟨provenLeaf txid index, ?_, rfl, ?_⟩
    · rw [hb.proofLevels_eq]
      exact mem_lowestLevel.mpr (.inl rfl)
    · rw [hoffset, Nat.div_div_eq_div_mul, Nat.pow_succ, Nat.mul_comm]
      rfl
  · obtain ⟨root, hroot⟩ := hroot
    refine ⟨root, ?_⟩
    intro leaf hleaf hash hhash
    rw [hb.proofLevels_eq] at hleaf
    rcases mem_lowestLevel.mp hleaf with rfl | rfl
    · cases hhash
      exact (hb.climb_proven hindex).trans hroot
    · rw [siblingLeaf_hash] at hhash
      split_ifs at hhash with hplain
      rw [siblingLeaf_offset]
      refine (hb.climb_sibling hindex ?_).trans hroot
      cases hpartner : ids[index ^^^ 1]? with
      | none => exact absurd (.inl (by rw [hpartner]; rfl)) hplain
      | some partner =>
        rw [hpartner] at hhash
        exact hhash

/-- Only the transaction is flagged. -/
theorem Block.flagged (hb : Block combine ids) :
    (proofLevels combine ids txid index).flatten.filter (·.txid) = [provenLeaf txid index] := by
  have hupper : ∀ leaf ∈ (pathLevels txid index 1 (index / 2)
      ((Merkle.siblings combine (Merkle.nextLevel combine ids) (index / 2)).map
        (·.getD "*"))).flatten, ¬leaf.txid = true := by
    intro leaf hleaf
    obtain ⟨leaves, hleaves, hmem⟩ := List.mem_flatten.mp hleaf
    obtain ⟨k, hk⟩ := List.mem_iff_getElem?.mp hleaves
    obtain ⟨only, rfl, -, hflag⟩ := getElem?_pathLevels hk
    rw [List.mem_singleton.mp hmem, hflag]
    exact Bool.false_ne_true
  rw [hb.proofLevels_eq, List.flatten_cons, List.filter_append, List.filter_eq_nil_iff.mpr hupper,
    List.append_nil, lowestLevel]
  split_ifs
  · simp [siblingLeaf_txid, provenLeaf]
  · simp [siblingLeaf_txid, provenLeaf]

/-- The converted proof of a transaction of a block gives the merkle root of the block, and its
flagged leaf is the transaction at its index. -/
theorem convertProofToMerklePath_root {sdk : PathSdk} (hsdk : sdk.KeepsLeaves combine)
    (hb : Block combine ids) (hindex : ids[index]? = some txid) (blockHeight : Nat) :
    ∃ bytes mp, convertProofToMerklePath sdk txid index (tscNodes combine ids index) blockHeight =
        .ok bytes ∧
      sdk.parseBump bytes = .ok mp ∧ mp.blockHeight = blockHeight ∧
      (∃ root, mp.rootFor combine txid = some root ∧ Merkle.root combine ids = some root) ∧
      mp.path.flatten.filter (·.txid) =
        [{ offset := index, hash := some txid, txid := true, duplicate := false }] := by
  obtain ⟨hnew, bytes, hbytes, hparse⟩ := hsdk blockHeight _ (hb.valid hindex)
  refine ⟨bytes, _, ?_, hparse, rfl, ?_, hb.flagged⟩
  · rw [convertProofToMerklePath, hnew]
    show internalError _ (sdk.bumpBytes _) = _
    rw [hbytes]
    rfl
  · have hhead : (proofLevels combine ids txid index).headD [] =
        lowestLevel txid index (ids[index ^^^ 1]?.getD "*") := by
      rw [hb.proofLevels_eq]
      rfl
    refine ⟨_, ?_, Merkle.root_eq_climb hindex⟩
    rw [← Merkle.root_eq_climb hindex, ← hb.climb_proven hindex, MerklePath.rootFor, hhead,
      find?_proven_hash]
    rfl

end Block

/-! ## A block of three transactions -/

namespace ThreeTxs

/-- Hashes that show what they were made of. -/
def combine (a b : String) : String := "(" ++ a ++ b ++ ")"

theorem combine_ne (a b : String) : combine a b ≠ "*" := by
  intro h
  have hlength := congrArg String.length h
  simp only [combine, String.length_append, show String.length "(" = 1 from rfl,
    show String.length ")" = 1 from rfl, show String.length "*" = 1 from rfl] at hlength
  omega

theorem block : Block combine ["a", "b", "c"] :=
  ⟨by decide, by decide +kernel, by decide +kernel, combine_ne⟩

def leafCode (leaf : MerkleLeaf) : Nat × Option (List Nat) × Bool × Bool :=
  (leaf.offset, leaf.hash.map (·.toList.map Char.toNat), leaf.txid, leaf.duplicate)

def leafOf (code : Nat × Option (List Nat) × Bool × Bool) : MerkleLeaf where
  offset := code.1
  hash := code.2.1.map fun chars => String.ofList (chars.map Char.ofNat)
  txid := code.2.2.1
  duplicate := code.2.2.2

theorem leafOf_leafCode (leaf : MerkleLeaf) : leafOf (leafCode leaf) = leaf := by
  obtain ⟨offset, hash, txid, duplicate⟩ := leaf
  cases hash with
  | none => rfl
  | some text => simp [leafOf, leafCode, Function.comp_def]

/-- A path is written as its number, in as many bytes. -/
def sdk : PathSdk where
  parseTx _ := .error "not a transaction"
  txBytes _ := .ok []
  txidOf _ := .error "not a transaction"
  parseBeef _ := .error "not a BEEF"
  beefBytes _ := .ok []
  mergeBeef beef _ := .ok beef
  mergeRawTx beef _ := .ok beef
  sortTxs beef := beef
  computeRoot _ _ := .error "no root"
  bumpBytes mp :=
    .ok (List.replicate (Encodable.encode (mp.blockHeight, mp.path.map (·.map leafCode))) 0)
  parseBump bytes :=
    match (Encodable.decode bytes.length : Option (Nat × List (List _))) with
    | some (blockHeight, path) => .ok { blockHeight, path := path.map (·.map leafOf) }
    | none => .error "not a merkle path"
  mergeBump beef _ := .ok (beef, 0)
  mergeProvenTx beef _ _ := .ok beef
  newPath blockHeight path := .ok { blockHeight, path }

theorem keepsLeaves : sdk.KeepsLeaves combine := by
  intro blockHeight path _
  refine ⟨rfl, _, rfl, ?_⟩
  simp [sdk, Function.comp_def, leafOf_leafCode]

end ThreeTxs

/-- The last transaction is its own partner. -/
theorem convertProofToMerklePath_root_threeTxs :
    tscNodes ThreeTxs.combine ["a", "b", "c"] 2 = ["*", "(ab)"] ∧
    ∃ bytes mp, convertProofToMerklePath ThreeTxs.sdk "c" 2
        (tscNodes ThreeTxs.combine ["a", "b", "c"] 2) 7 = .ok bytes ∧
      ThreeTxs.sdk.parseBump bytes = .ok mp ∧ mp.blockHeight = 7 ∧
      (∃ root, mp.rootFor ThreeTxs.combine "c" = some root ∧
        Merkle.root ThreeTxs.combine ["a", "b", "c"] = some root) ∧
      mp.path.flatten.filter (·.txid) =
        [{ offset := 2, hash := some "c", txid := true, duplicate := false }] :=
  ⟨by simp [tscNodes, Merkle.siblings, Merkle.nextLevel, ThreeTxs.combine],
    convertProofToMerklePath_root ThreeTxs.keepsLeaves ThreeTxs.block rfl 7⟩

end WalletToolbox
