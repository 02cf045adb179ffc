import WalletToolbox.Laws.BestChain

/-! # The indexes of MemoryStorage

The hash index is to find the stored headers, the other two the active ones.
An insertion that takes the tip files and unfiles headers by their heights and merkle roots, and a
removal unfiles whatever stands at the height of a removed header: both are right as long as no two
of the headers concerned share a height. -/

namespace WalletToolbox.Chaintracks

open WalletToolbox.Lib

namespace Inner

variable {s s' : Inner} {id : Nat} {h header : LiveBlockHeader}

def hashOf (s : Inner) (id : Nat) : String := ((s.headers.lookup id).map (·.hash)).getD ""

/-- The indexes find exactly the stored and the active headers. -/
structure Indexed (s : Inner) : Prop where
  hash : IndexOf s.hashToId (· ∈ s.headers) s.hashOf
  height : IndexOf s.heightToId s.Active s.heightOf
  merkleRoot : IndexOf s.merkleToId s.Active s.merkleRootOf

/-! ## What a call changes -/

/-- The headers that a loop of `handle_reorg` passes. -/
def branch (s : Inner) (ancestorHash : String) : Nat → Option Nat → Option (List Nat)
  | _, none => some []
  | 0, some _ => none
  | turns + 1, some id =>
    match s.headers.lookup id with
    | none => some []
    | some header =>
      if header.hash = ancestorHash then some []
      else (branch s ancestorHash turns (s.previousStored id)).map (id :: ·)

/-- The headers that `handle_reorg` deactivates and activates. -/
def branches (reorgHeightThreshold : Nat) (s : Inner) (oldTipId newTipId : Nat) :
    Option (List Nat × List Nat) :=
  match findCommonAncestorSync reorgHeightThreshold s oldTipId newTipId with
  | none => none
  | some none => some ([], [])
  | some (some ancestor) =>
    match s.branch ancestor.hash (s.size + 1) (some oldTipId) with
    | none => none
    | some old => (s.branch ancestor.hash (s.size + 1) (some newTipId)).map fun new => (old, new)

/-- An inserted header takes the tip. -/
def takesTip (s : Inner) (header : LiveBlockHeader) : Bool :=
  match s.tipId, s.findChainTipHeader with
  | some _, some tip => isMoreWork (s.place header).chainWork tip.chainWork
  | _, _ => true

/-- The state in which a new tip has been stored and no branch has been switched. -/
def tipStored (s : Inner) (header : LiveBlockHeader) : Inner := s.storeTip (s.place header)

/-- The headers that a new tip deactivates and activates. -/
def switched (reorgHeightThreshold : Nat) (s : Inner) (header : LiveBlockHeader) :
    Option (List Nat × List Nat) :=
  match s.tipId, s.findChainTipHeader with
  | some oldTipId, some tip =>
    if header.previousHash ≠ tip.hash then
      branches reorgHeightThreshold (s.tipStored header) oldTipId s.nextId
    else some ([], [])
  | _, _ => some ([], [])

/-- The state after a new tip has switched the branches. -/
def afterSwitch (s : Inner) (old new : List Nat) : Inner :=
  markAll activate new (markAll deactivate old s)

theorem SameTree.previousStored (hsame : s.SameTree s') (id : Nat) :
    s'.previousStored id = s.previousStored id := by
  cases hlookup : s.headers.lookup id with
  | none =>
    have heq := hsame.headers id
    rw [hlookup, Option.map_none, Option.map_eq_none_iff] at heq
    rw [Inner.previousStored, Inner.previousStored, hlookup, heq]
    rfl
  | some h =>
    obtain ⟨h', hlookup', hunmarked⟩ := hsame.lookup hlookup
    have hprevious : h'.previousHeaderId = h.previousHeaderId :=
      (congrArg (·.previousHeaderId) hunmarked :)
    rw [Inner.previousStored, Inner.previousStored, hlookup, hlookup', Option.bind_some,
      Option.bind_some, hprevious]
    refine congrArg (fun p => Option.filter p _) (funext fun above => ?_)
    rw [decide_eq_decide, hsame.mem]

theorem SameTree.branch (hsame : s.SameTree s') (ancestorHash : String) (turns : Nat)
    (cur : Option Nat) : s'.branch ancestorHash turns cur = s.branch ancestorHash turns cur := by
  induction turns generalizing cur with
  | zero => cases cur <;> rfl
  | succ turns ih =>
    cases cur with
    | none => rfl
    | some id =>
      rw [Inner.branch, Inner.branch, ih, hsame.previousStored]
      cases hlookup : s.headers.lookup id with
      | none =>
        have heq := hsame.headers id
        rw [hlookup, Option.map_none, Option.map_eq_none_iff] at heq
        rw [heq]
      | some h =>
        obtain ⟨h', hlookup', hunmarked⟩ := hsame.lookup hlookup
        have hhash : h'.hash = h.hash := (congrArg (·.hash) hunmarked :)
        rw [hlookup']
        simp only [hhash]

/-- A loop marks the headers that it passes. -/
theorem sweep_eq {mark : Nat → LiveBlockHeader → Inner → Inner} {flag : Bool}
    (hm : Marks mark flag) (ancestorHash : String) (turns : Nat) (cur : Option Nat) :
    (sweep mark ancestorHash turns cur s).map Prod.fst =
      (s.branch ancestorHash turns cur).map (markAll mark · s) := by
  induction turns generalizing s cur with
  | zero => cases cur <;> rfl
  | succ turns ih =>
    cases cur with
    | none => rfl
    | some id =>
      rw [sweep, branch]
      cases hlookup : s.headers.lookup id with
      | none => rfl
      | some h =>
        by_cases hend : h.hash = ancestorHash
        · simp only [if_pos hend]
          rfl
        · have hsame := hm.sameTree hlookup
          have hrest := @ih (mark id h s) ((mark id h s).previousStored id)
          rw [hsame.branch, hsame.previousStored] at hrest
          simp only [if_neg hend, Option.map_map, Function.comp_def]
          rw [hsame.previousStored]
          have hcons : ∀ ids, markAll mark (id :: ids) s = markAll mark ids (mark id h s) :=
            fun ids => markAll_cons hlookup ids
          simp only [hcons]
          rw [← hrest]

theorem branch_stored {ancestorHash : String} {turns : Nat} {cur : Option Nat} {ids : List Nat}
    (h : s.branch ancestorHash turns cur = some ids) : ∀ id ∈ ids, id ∈ s.headers := by
  induction turns generalizing cur ids with
  | zero =>
    cases cur with
    | none =>
      cases h
      exact fun _ h => by cases h
    | some id => cases h
  | succ turns ih =>
    cases cur with
    | none =>
      cases h
      exact fun _ h => by cases h
    | some id =>
      rw [branch] at h
      cases hlookup : s.headers.lookup id with
      | none =>
        rw [hlookup] at h
        cases h
        exact fun _ h => by cases h
      | some header =>
        rw [hlookup] at h
        by_cases hend : header.hash = ancestorHash
        · simp only [if_pos hend] at h
          cases h
          exact fun _ h => by cases h
        · simp only [if_neg hend] at h
          obtain ⟨rest, hrest, rfl⟩ := Option.map_eq_some_iff.mp h
          intro id' hid'
          rcases List.mem_cons.mp hid' with rfl | hid'
          · exact mem_of_lookup hlookup
          · exact ih hrest id' hid'

theorem SameTree.size (hsame : s.SameTree s') : s'.size = s.size := by
  have hkeys : s'.headers.keys.Perm s.headers.keys :=
    (List.perm_ext_iff_of_nodup s'.headers.keys_nodup s.headers.keys_nodup).mpr fun _ => hsame.mem
  have hlength : ∀ t : Inner, t.headers.keys.length = t.size := fun _ => List.length_map _
  rw [← hlength, ← hlength, hkeys.length_eq]

/-- A reorganization marks two branches. -/
theorem handleReorg_eq (reorgHeightThreshold : Nat) (oldTipId newTipId : Nat) :
    (handleReorg reorgHeightThreshold s oldTipId newTipId).map Prod.fst =
      (branches reorgHeightThreshold s oldTipId newTipId).map fun b => s.afterSwitch b.1 b.2 := by
  rw [handleReorg, branches]
  rcases findCommonAncestorSync reorgHeightThreshold s oldTipId newTipId with _ | _ | ancestor
  · rfl
  · rfl
  · have hold := sweep_eq (s := s) marks_deactivate ancestor.hash (s.size + 1) (some oldTipId)
    simp only
    cases hbranch : s.branch ancestor.hash (s.size + 1) (some oldTipId) with
    | none =>
      rw [hbranch, Option.map_none, Option.map_eq_none_iff] at hold
      rw [hold]
      rfl
    | some old =>
      rw [hbranch, Option.map_some] at hold
      obtain ⟨⟨s', passed⟩, hsweep, rfl⟩ := Option.map_eq_some_iff.mp hold
      -- the second loop runs on the state that the first one leaves
      have hsame := marks_deactivate.sameTree_markAll old s
      have hnew := sweep_eq (s := markAll deactivate old s) marks_activate ancestor.hash
        (s.size + 1) (some newTipId)
      rw [hsame.branch] at hnew
      rw [hsweep]
      simp only [hsame.size]
      rw [Option.map_map]
      refine Eq.trans ?_ hnew
      cases sweep activate ancestor.hash (s.size + 1) (some newTipId) (markAll deactivate old s) <;>
        rfl

theorem branches_stored {reorgHeightThreshold oldTipId newTipId : Nat} {old new : List Nat}
    (h : branches reorgHeightThreshold s oldTipId newTipId = some (old, new)) :
    (∀ id ∈ old, id ∈ s.headers) ∧ ∀ id ∈ new, id ∈ s.headers := by
  rw [branches] at h
  split at h
  · cases h
  · cases h
    exact ⟨List.forall_mem_nil _, List.forall_mem_nil _⟩
  · split at h
    · cases h
    next hold =>
      obtain ⟨new', hnew, heq⟩ := Option.map_eq_some_iff.mp h
      cases heq
      exact ⟨branch_stored hold, branch_stored hnew⟩

theorem switched_stored {reorgHeightThreshold : Nat} {old new : List Nat}
    (h : s.switched reorgHeightThreshold header = some (old, new)) :
    (∀ id ∈ old, id ∈ (s.tipStored header).headers) ∧
      ∀ id ∈ new, id ∈ (s.tipStored header).headers := by
  rw [switched] at h
  split at h
  · split_ifs at h
    · exact branches_stored h
    · cases h
      exact ⟨List.forall_mem_nil _, List.forall_mem_nil _⟩
  · cases h
    exact ⟨List.forall_mem_nil _, List.forall_mem_nil _⟩

/-- What an insertion leaves. -/
theorem insertHeader_state (reorgHeightThreshold : Nat) (hnew : header.hash ∉ s.hashToId) :
    (insertHeader reorgHeightThreshold header s).map Prod.snd =
      if s.takesTip header then
        (s.switched reorgHeightThreshold header).map fun b =>
          { (s.tipStored header).afterSwitch b.1 b.2 with tipId := some s.nextId }
      else some (s.joined header) := by
  rw [insertHeader, if_neg hnew, takesTip, switched]
  cases htip : s.tipId with
  | none => rfl
  | some oldTipId =>
    cases hfind : s.findChainTipHeader with
    | none => rfl
    | some tip =>
      simp only [place_previousHash]
      by_cases hmore : isMoreWork (s.place header).chainWork tip.chainWork = true
      · rw [if_pos hmore, if_pos hmore]
        by_cases hreorg : header.previousHash ≠ tip.hash
        · rw [if_pos hreorg, if_pos hreorg]
          have heq := congrArg
            (Option.map fun s' : Inner => { s' with tipId := some s.nextId })
            (handleReorg_eq (s := s.tipStored header) reorgHeightThreshold oldTipId s.nextId)
          rw [Option.map_map, Option.map_map] at heq
          rw [Option.map_map]
          exact heq
        · rw [if_neg hreorg, if_neg hreorg]
          rfl
      · rw [if_neg hmore, if_neg hmore]
        rfl

/-! ## Insertions -/

/-- Ids are given in order, the indexes are right, and no merkle root is stored twice. -/
structure Filed (s : Inner) : Prop where
  indexed : s.Indexed
  fresh : ∀ id ∈ s.headers, id < s.nextId
  roots : ∀ id ∈ s.headers, ∀ id' ∈ s.headers, s.merkleRootOf id = s.merkleRootOf id' → id = id'

theorem Active.stored (h : s.Active id) : id ∈ s.headers := by
  obtain ⟨_, hlookup, -⟩ := h
  exact mem_of_lookup hlookup

theorem Filed.ne_nextId (hf : s.Filed) (hid : id ∈ s.headers) : id ≠ s.nextId :=
  Nat.ne_of_lt (hf.fresh id hid)

theorem mem_headers_joined : id ∈ (s.joined header).headers ↔ id ∈ s.headers ∨ id = s.nextId := by
  rw [← AList.lookup_isSome, lookup_joined, ← AList.lookup_isSome]
  by_cases hid : id = s.nextId
  · simp [hid]
  · simp [hid]

/-- What a key of the new state is for the headers that were there. -/
theorem Filed.keyOf_joined (hf : s.Filed) (hid : id ∈ s.headers) :
    (s.joined header).hashOf id = s.hashOf id ∧ (s.joined header).heightOf id = s.heightOf id ∧
      (s.joined header).merkleRootOf id = s.merkleRootOf id := by
  have hlookup : (s.joined header).headers.lookup id = s.headers.lookup id := by
    rw [lookup_joined, if_neg (hf.ne_nextId hid)]
  refine ⟨?_, ?_, ?_⟩
  · rw [hashOf, hashOf, hlookup]
  · rw [heightOf, heightOf, hlookup]
  · rw [merkleRootOf, merkleRootOf, hlookup]

theorem SameTree.hashOf (hsame : s.SameTree s') : s'.hashOf = s.hashOf := by
  funext id
  have heq := congrArg (Option.map (·.hash)) (hsame.headers id)
  rw [Option.map_map, Option.map_map] at heq
  exact congrArg (Option.getD · "") heq

theorem SameTree.merkleRootOf (hsame : s.SameTree s') : s'.merkleRootOf = s.merkleRootOf := by
  funext id
  have heq := congrArg (Option.map (·.merkleRoot)) (hsame.headers id)
  rw [Option.map_map, Option.map_map] at heq
  exact congrArg (Option.getD · "") heq

theorem merkleToId_deactivateAll (ids : List Nat) (hstored : ∀ id ∈ ids, id ∈ s.headers) :
    (markAll deactivate ids s).merkleToId =
      ids.foldl (fun m id => m.erase (s.merkleRootOf id)) s.merkleToId :=
  foldl_markAll merkleToId (·.merkleRoot) "" (fun m k _ => m.erase k) marks_deactivate
    (fun _ _ _ => rfl) (fun _ _ h => congrArg (·.merkleRoot) h) hstored

theorem merkleToId_activateAll (ids : List Nat) (hstored : ∀ id ∈ ids, id ∈ s.headers) :
    (markAll activate ids s).merkleToId =
      ids.foldl (fun m id => m.insert (s.merkleRootOf id) id) s.merkleToId :=
  foldl_markAll merkleToId (·.merkleRoot) "" (fun m k id => m.insert k id) marks_activate
    (fun _ _ _ => rfl) (fun _ _ h => congrArg (·.merkleRoot) h) hstored

/-- What a switch of branches does to the state `t` in which the new tip is stored. -/
structure Switch (t s' : Inner) (old new : List Nat) : Prop where
  tree : t.SameTree s'
  active : ∀ id, s'.Active id ↔ id ∈ new ∨ t.Active id ∧ id ∉ old
  heightToId : s'.heightToId = new.foldl (fun m id => m.insert (t.heightOf id) id)
    (old.foldl (fun m id => m.erase (t.heightOf id)) t.heightToId)
  merkleToId : s'.merkleToId = new.foldl (fun m id => m.insert (t.merkleRootOf id) id)
    (old.foldl (fun m id => m.erase (t.merkleRootOf id)) t.merkleToId)

theorem afterSwitch_switch {old new : List Nat} (hold : ∀ id ∈ old, id ∈ s.headers)
    (hnew : ∀ id ∈ new, id ∈ s.headers) : Switch s (s.afterSwitch old new) old new := by
  have hsame := marks_deactivate.sameTree_markAll old s
  have hsame' := marks_activate.sameTree_markAll new (markAll deactivate old s)
  have hnew' : ∀ id ∈ new, id ∈ (markAll deactivate old s).headers := fun id hid =>
    hsame.mem.mpr (hnew id hid)
  refine ⟨hsame.trans hsame', ?_, ?_, ?_⟩
  · intro id
    by_cases hid : id ∈ s.headers
    · rw [afterSwitch, active_markAll marks_activate (hsame.mem.mpr hid),
        active_markAll marks_deactivate hid]
      by_cases hnew : id ∈ new
      · simp [hnew]
      · by_cases hold : id ∈ old
        · simp [hnew, hold]
        · simp [hnew, hold]
    · constructor
      · intro h
        exact absurd ((hsame.trans hsame').mem.mp h.stored) hid
      · rintro (h | ⟨h, -⟩)
        · exact absurd (hnew id h) hid
        · exact absurd h.stored hid
  · rw [afterSwitch, heightToId_activateAll new hnew', hsame.heightOf,
      heightToId_deactivateAll old hold]
  · rw [afterSwitch, merkleToId_activateAll new hnew', hsame.merkleRootOf,
      merkleToId_deactivateAll old hold]

/-- A header that was not stored and has a merkle root of its own. -/
structure New (s : Inner) (header : LiveBlockHeader) : Prop where
  hash : header.hash ∉ s.hashToId
  root : ∀ id ∈ s.headers, s.merkleRootOf id ≠ header.merkleRoot

theorem lookup_joined_nextId :
    (s.joined header).headers.lookup s.nextId = some (s.place header) := by
  rw [lookup_joined, if_pos rfl]

theorem keyOf_joined_nextId : (s.joined header).hashOf s.nextId = header.hash ∧
    (s.joined header).heightOf s.nextId = header.height ∧
      (s.joined header).merkleRootOf s.nextId = header.merkleRoot := by
  rw [hashOf, heightOf, merkleRootOf, lookup_joined_nextId, place_eq]
  exact ⟨rfl, rfl, rfl⟩

theorem Filed.hash_joined (hf : s.Filed) (hnew : s.New header) :
    IndexOf (s.joined header).hashToId (· ∈ (s.joined header).headers) (s.joined header).hashOf := by
  have hindex : IndexOf s.hashToId (· ∈ s.headers) (s.joined header).hashOf :=
    hf.indexed.hash.congr_key _ fun id hid => (hf.keyOf_joined hid).1
  have hinserted := hindex.insert (n := s.nextId) (by
    intro id hid heq
    rw [(hf.keyOf_joined hid).1, keyOf_joined_nextId.1] at heq
    refine hnew.hash (AList.lookup_isSome.mp ?_)
    rw [(hf.indexed.hash _ _).mpr ⟨hid, heq⟩]
    rfl)
  have hkey : (s.joined header).hashOf s.nextId = header.hash := keyOf_joined_nextId.1
  rw [hashToId_joined, ← hkey]
  exact hinserted.congr fun id => mem_headers_joined

theorem Filed.fresh_joined (hf : s.Filed) :
    ∀ id ∈ (s.joined header).headers, id < (s.joined header).nextId := by
  intro id hid
  show id < s.nextId + 1
  rcases mem_headers_joined.mp hid with hid | rfl
  · exact Nat.lt_succ_of_lt (hf.fresh id hid)
  · exact Nat.lt_succ_self _

theorem Filed.roots_joined (hf : s.Filed) (hnew : s.New header) :
    ∀ id ∈ (s.joined header).headers, ∀ id' ∈ (s.joined header).headers,
      (s.joined header).merkleRootOf id = (s.joined header).merkleRootOf id' → id = id' := by
  intro id hid id' hid' heq
  rcases mem_headers_joined.mp hid with hid | rfl
  · rcases mem_headers_joined.mp hid' with hid' | rfl
    · rw [(hf.keyOf_joined hid).2.2, (hf.keyOf_joined hid').2.2] at heq
      exact hf.roots id hid id' hid' heq
    · rw [(hf.keyOf_joined hid).2.2, keyOf_joined_nextId.2.2] at heq
      exact absurd heq (hnew.root id hid)
  · rcases mem_headers_joined.mp hid' with hid' | rfl
    · rw [(hf.keyOf_joined hid').2.2, keyOf_joined_nextId.2.2] at heq
      exact absurd heq.symm (hnew.root id' hid')
    · rfl

/-- The headers that are active after a switch. -/
def ActiveAfter (t : Inner) (old new : List Nat) (id : Nat) : Prop :=
  id ∈ new ∨ t.Active id ∧ id ∉ old

/-- After the switch no two headers are active at one height, and none that was active before it is
at the height of one that has been deactivated. -/
structure InPlace (t : Inner) (old new : List Nat) : Prop where
  apart : ∀ id id', t.ActiveAfter old new id → t.ActiveAfter old new id' →
    t.heightOf id = t.heightOf id' → id = id'
  kept : ∀ id ∈ old, ∀ id', t.ActiveAfter old new id' → id' ∉ new → t.heightOf id' ≠ t.heightOf id

/-- A new tip leaves the indexes right exactly when it finds its place. -/
theorem Filed.indexed_afterSwitch (hf : s.Filed) (hnew : s.New header) {old new : List Nat}
    (hold : ∀ id ∈ old, id ∈ (s.tipStored header).headers)
    (hstored : ∀ id ∈ new, id ∈ (s.tipStored header).headers) :
    ((s.tipStored header).afterSwitch old new).Indexed ↔ (s.tipStored header).InPlace old new := by
  have hswitch := afterSwitch_switch hold hstored
  have htip : (s.joined header).SameTree (s.tipStored header) := sameTree_storeTip s header
  have hsame := htip.trans hswitch.tree
  have hmem : ∀ id, ((s.tipStored header).afterSwitch old new).Active id ↔
      id ∈ new ∨ (s.Active id ∨ id ∈ [s.nextId]) ∧ id ∉ old := by
    intro id
    rw [hswitch.active, tipStored, active_storeTip, List.mem_singleton]
  have hheight : IndexOf s.heightToId s.Active (s.tipStored header).heightOf := by
    rw [htip.heightOf]
    exact hf.indexed.height.congr_key _ fun id hid => (hf.keyOf_joined hid.stored).2.1
  have hroot : IndexOf s.merkleToId s.Active (s.tipStored header).merkleRootOf := by
    rw [htip.merkleRootOf]
    exact hf.indexed.merkleRoot.congr_key _ fun id hid => (hf.keyOf_joined hid.stored).2.2
  have hfiled : (s.tipStored header).heightToId =
      [s.nextId].foldl (fun m id => m.insert ((s.tipStored header).heightOf id) id) s.heightToId := by
    rw [List.foldl_cons, List.foldl_nil, htip.heightOf, keyOf_joined_nextId.2.1]
    exact heightToId_storeTip s header
  have hfiledRoot : (s.tipStored header).merkleToId =
      [s.nextId].foldl (fun m id => m.insert ((s.tipStored header).merkleRootOf id) id)
        s.merkleToId := by
    rw [List.foldl_cons, List.foldl_nil, htip.merkleRootOf, keyOf_joined_nextId.2.2, tipStored,
      storeTip, place_eq]
  have hheights := hheight.replaced_iff hmem
  have hroots := hroot.replaced_iff hmem
  rw [← hfiled, ← hswitch.heightToId] at hheights
  rw [← hfiledRoot, ← hswitch.merkleToId] at hroots
  constructor
  · intro h
    have hindex := h.height
    rw [hswitch.tree.heightOf] at hindex
    obtain ⟨hapart, hkept⟩ := hheights.mp hindex
    exact ⟨fun id id' hid hid' => hapart id id' ((hswitch.active id).mpr hid)
        ((hswitch.active id').mpr hid'),
      fun id hid id' hid' => hkept id hid id' ((hswitch.active id').mpr hid')⟩
  · intro h
    have hstored' : ∀ id, ((s.tipStored header).afterSwitch old new).Active id →
        id ∈ (s.joined header).headers := fun id hid => hsame.mem.mp hid.stored
    refine ⟨?_, ?_, ?_⟩
    · rw [hsame.hashOf, hsame.hashToId]
      exact (hf.hash_joined hnew).congr fun id => hsame.mem
    · rw [hswitch.tree.heightOf]
      exact hheights.mpr ⟨fun id id' hid hid' => h.apart id id' ((hswitch.active id).mp hid)
          ((hswitch.active id').mp hid'),
        fun id hid id' hid' => h.kept id hid id' ((hswitch.active id').mp hid')⟩
    · -- merkle roots are not stored twice, whatever the switch does
      rw [hswitch.tree.merkleRootOf]
      refine hroots.mpr ⟨?_, ?_⟩
      · intro id id' hid hid' heq
        rw [htip.merkleRootOf] at heq
        exact hf.roots_joined hnew id (hstored' id hid) id' (hstored' id' hid') heq
      · intro id hid id' hid' hstays heq
        rw [htip.merkleRootOf] at heq
        have hsameId := hf.roots_joined hnew id' (hstored' id' hid') id (htip.mem.mp (hold id hid)) heq
        exact (((hswitch.active id').mp hid').resolve_left hstays).2 (hsameId ▸ hid)

/-- A header that does not take the tip leaves the indexes right exactly when it is not flagged. -/
theorem Filed.indexed_joined (hf : s.Filed) (hnew : s.New header) :
    (s.joined header).Indexed ↔ header.isActive = false := by
  have hactive : ∀ id, (s.joined header).Active id ↔
      s.Active id ∨ id = s.nextId ∧ header.isActive = true := by
    intro id
    rw [Active, Active, lookup_joined]
    by_cases hid : id = s.nextId
    · subst hid
      have hnone : ¬∃ h, s.headers.lookup s.nextId = some h ∧ h.isActive = true := by
        rintro ⟨_, hlookup, -⟩
        exact hf.ne_nextId (mem_of_lookup hlookup) rfl
      rw [if_pos rfl]
      simp [hnone]
    · simp [hid]
  constructor
  · intro h
    by_contra hflag
    have hfound := (h.height header.height s.nextId).mpr
      ⟨(hactive _).mpr (.inr ⟨rfl, by simpa using hflag⟩), keyOf_joined_nextId.2.1⟩
    exact hf.ne_nextId ((hf.indexed.height _ _).mp hfound).1.stored rfl
  · intro hflag
    have hsame : ∀ id, (s.joined header).Active id ↔ s.Active id := by
      intro id
      rw [hactive, hflag]
      simp
    exact ⟨hf.hash_joined hnew,
      (hf.indexed.height.congr_key _ fun id hid => (hf.keyOf_joined hid.stored).2.1).congr hsame,
      (hf.indexed.merkleRoot.congr_key _ fun id hid => (hf.keyOf_joined hid.stored).2.2).congr hsame⟩

/-! ## Removals -/

/-- One header is removed, with what every index has at its keys. -/
def removeOne (id : Nat) (h : LiveBlockHeader) (s : Inner) : Inner :=
  { s with
    headers := s.headers.erase id
    hashToId := s.hashToId.erase h.hash
    heightToId := s.heightToId.erase h.height
    merkleToId := s.merkleToId.erase h.merkleRoot }

theorem remove_cons (hlookup : s.headers.lookup id = some h) (rest : List Nat) :
    s.remove (id :: rest) = (removeOne id h s).remove rest := by
  rw [remove, List.foldl_cons, hlookup]
  rfl

theorem lookup_remove {ids : List Nat} (hstored : ∀ id ∈ ids, id ∈ s.headers) (hnodup : ids.Nodup)
    (id : Nat) :
    (s.remove ids).headers.lookup id = if id ∈ ids then none else s.headers.lookup id := by
  induction ids generalizing s with
  | nil => rfl
  | cons first rest ih =>
    obtain ⟨hfirst, hrest⟩ := List.nodup_cons.mp hnodup
    obtain ⟨h, hlookup⟩ := lookup_of_mem (hstored first List.mem_cons_self)
    have hkept : ∀ id' ∈ rest, id' ∈ (removeOne first h s).headers := fun id' hid' =>
      AList.mem_erase.mpr ⟨fun heq => hfirst (heq ▸ hid'), hstored id' (List.mem_cons_of_mem _ hid')⟩
    rw [remove_cons hlookup, ih hkept hrest, removeOne]
    by_cases hid : id = first
    · subst hid
      rw [if_neg hfirst, if_pos List.mem_cons_self, AList.lookup_erase]
    · rw [AList.lookup_erase_ne hid]
      simp only [List.mem_cons, hid, false_or]

theorem nextId_remove (ids : List Nat) : (s.remove ids).nextId = s.nextId := by
  induction ids generalizing s with
  | nil => rfl
  | cons id rest ih =>
    cases hlookup : s.headers.lookup id with
    | none =>
      have hskip : s.remove (id :: rest) = s.remove rest := by
        rw [remove, List.foldl_cons, hlookup]
        rfl
      rw [hskip, ih]
    | some h => rw [remove_cons hlookup, ih, removeOne]

/-- Every index loses the keys of the removed headers. -/
theorem foldl_remove {κ : Type} [DecidableEq κ] (index : Inner → AList fun _ : κ => Nat)
    (key : LiveBlockHeader → κ) (default : κ)
    (hindex : ∀ id h s, index (removeOne id h s) = (index s).erase (key h))
    {ids : List Nat} (hstored : ∀ id ∈ ids, id ∈ s.headers) (hnodup : ids.Nodup) :
    index (s.remove ids) =
      ids.foldl (fun m id => m.erase (((s.headers.lookup id).map key).getD default)) (index s) := by
  induction ids generalizing s with
  | nil => rfl
  | cons first rest ih =>
    obtain ⟨hfirst, hrest⟩ := List.nodup_cons.mp hnodup
    obtain ⟨h, hlookup⟩ := lookup_of_mem (hstored first List.mem_cons_self)
    have hkept : ∀ id' ∈ rest, id' ∈ (removeOne first h s).headers := fun id' hid' =>
      AList.mem_erase.mpr ⟨fun heq => hfirst (heq ▸ hid'), hstored id' (List.mem_cons_of_mem _ hid')⟩
    rw [remove_cons hlookup, ih hkept hrest, hindex, List.foldl_cons, hlookup]
    refine List.foldl_ext _ _ _ fun m id' hid' => ?_
    have hne : id' ≠ first := fun heq => hfirst (heq ▸ hid')
    rw [removeOne, AList.lookup_erase_ne hne]

theorem active_remove {ids : List Nat} (hstored : ∀ id ∈ ids, id ∈ s.headers) (hnodup : ids.Nodup)
    (id : Nat) : (s.remove ids).Active id ↔ s.Active id ∧ id ∉ ids := by
  rw [Active, Active, lookup_remove hstored hnodup]
  by_cases hid : id ∈ ids
  · simp [hid]
  · simp [hid]

theorem mem_remove {ids : List Nat} (hstored : ∀ id ∈ ids, id ∈ s.headers) (hnodup : ids.Nodup)
    (id : Nat) : id ∈ (s.remove ids).headers ↔ id ∈ s.headers ∧ id ∉ ids := by
  rw [← AList.lookup_isSome, lookup_remove hstored hnodup, ← AList.lookup_isSome]
  by_cases hid : id ∈ ids
  · simp [hid]
  · simp [hid]

/-- A removal leaves the indexes right exactly when no active header that stays is at the height of
a removed one. -/
theorem Filed.indexed_remove (hf : s.Filed) {ids : List Nat} (hstored : ∀ id ∈ ids, id ∈ s.headers)
    (hnodup : ids.Nodup) :
    (s.remove ids).Indexed ↔
      ∀ id ∈ ids, ∀ id', s.Active id' → id' ∉ ids → s.heightOf id' ≠ s.heightOf id := by
  have hlookup : ∀ id, id ∉ ids → (s.remove ids).headers.lookup id = s.headers.lookup id := by
    intro id hid
    rw [lookup_remove hstored hnodup, if_neg hid]
  have hheight : ∀ id, s.Active id ∧ id ∉ ids → (s.remove ids).heightOf id = s.heightOf id := by
    rintro id ⟨-, hid⟩
    rw [heightOf, heightOf, hlookup id hid]
  have hactive := active_remove hstored hnodup
  have hmem := mem_remove hstored hnodup
  have hheights := hf.indexed.height.removed_iff ids
  have hheightToId : (s.remove ids).heightToId =
      ids.foldl (fun m id => m.erase (s.heightOf id)) s.heightToId :=
    foldl_remove heightToId (·.height) 0 (fun _ _ _ => rfl) hstored hnodup
  have hmerkleToId : (s.remove ids).merkleToId =
      ids.foldl (fun m id => m.erase (s.merkleRootOf id)) s.merkleToId :=
    foldl_remove merkleToId (·.merkleRoot) "" (fun _ _ _ => rfl) hstored hnodup
  have hhashToId : (s.remove ids).hashToId =
      ids.foldl (fun m id => m.erase (s.hashOf id)) s.hashToId :=
    foldl_remove hashToId (·.hash) "" (fun _ _ _ => rfl) hstored hnodup
  constructor
  · intro h
    refine hheights.mp ?_
    rw [← hheightToId]
    refine ((h.height.congr fun id => (hactive id).symm).congr_key _ ?_)
    exact fun id hid => (hheight id hid).symm
  · intro hkept
    refine ⟨?_, ?_, ?_⟩
    · rw [hhashToId]
      refine ((hf.indexed.hash.removed_iff ids).mpr ?_).congr_key _ ?_ |>.congr hmem
      · intro id hid id' hid' hstays heq
        exact hstays (hf.indexed.hash.inj hid' (hstored id hid) heq ▸ hid)
      · rintro id ⟨-, hid⟩
        rw [hashOf, hashOf, hlookup id hid]
    · rw [hheightToId]
      exact ((hheights.mpr hkept).congr_key _ hheight).congr hactive
    · rw [hmerkleToId]
      refine ((hf.indexed.merkleRoot.removed_iff ids).mpr ?_).congr_key _ ?_ |>.congr hactive
      · intro id hid id' hid' hstays heq
        exact hstays (hf.roots id' hid'.stored id (hstored id hid) heq ▸ hid)
      · rintro id ⟨-, hid⟩
        rw [merkleRootOf, merkleRootOf, hlookup id hid]

theorem mem_idsWhere {p : LiveBlockHeader → Bool} :
    id ∈ s.idsWhere p ↔ ∃ h, s.headers.lookup id = some h ∧ p h = true := by
  rw [idsWhere, List.mem_map]
  constructor
  · rintro ⟨⟨id', h⟩, hmem, rfl⟩
    obtain ⟨hentry, hp⟩ := List.mem_filter.mp hmem
    exact ⟨h, AList.mem_lookup_iff.mpr hentry, hp⟩
  · rintro ⟨h, hlookup, hp⟩
    exact ⟨⟨id, h⟩, List.mem_filter.mpr ⟨AList.mem_lookup_iff.mp hlookup, hp⟩, rfl⟩

theorem idsWhere_stored (p : LiveBlockHeader → Bool) : ∀ id ∈ s.idsWhere p, id ∈ s.headers := by
  intro id hid
  obtain ⟨h, hlookup, -⟩ := mem_idsWhere.mp hid
  exact mem_of_lookup hlookup

theorem nodup_idsWhere (p : LiveBlockHeader → Bool) : (s.idsWhere p).Nodup :=
  s.headers.keys_nodup.sublist (List.filter_sublist.map _)

/-- All headers up to a height are removed together, so none of them shares its height with one that
stays. -/
theorem Filed.indexed_removeUpTo (hf : s.Filed) (maxHeight : Nat) :
    (s.remove (s.idsWhere fun h => decide (h.height ≤ maxHeight))).Indexed := by
  refine (hf.indexed_remove (idsWhere_stored _) (nodup_idsWhere _)).mpr ?_
  intro id hid id' hactive hstays heq
  obtain ⟨h, hlookup, hle⟩ := mem_idsWhere.mp hid
  obtain ⟨h', hlookup', -⟩ := hactive
  rw [heightOf_eq hlookup, heightOf_eq hlookup'] at heq
  refine hstays (mem_idsWhere.mpr ⟨h', hlookup', ?_⟩)
  rw [heq]
  exact hle

theorem Filed.remove (hf : s.Filed) {ids : List Nat} (hstored : ∀ id ∈ ids, id ∈ s.headers)
    (hnodup : ids.Nodup) (hindexed : (s.remove ids).Indexed) : (s.remove ids).Filed where
  indexed := hindexed
  fresh id hid := by
    rw [nextId_remove]
    exact hf.fresh id ((mem_remove hstored hnodup id).mp hid).1
  roots id hid id' hid' heq := by
    obtain ⟨hid, hstays⟩ := (mem_remove hstored hnodup id).mp hid
    obtain ⟨hid', hstays'⟩ := (mem_remove hstored hnodup id').mp hid'
    rw [merkleRootOf, merkleRootOf, lookup_remove hstored hnodup, lookup_remove hstored hnodup,
      if_neg hstays, if_neg hstays'] at heq
    exact hf.roots id hid id' hid' heq

/-- The tip and the archive are no concern of the indexes. -/
theorem indexed_withTip (s : Inner) (tipId : Option Nat) :
    { s with tipId := tipId }.Indexed ↔ s.Indexed :=
  ⟨fun h => ⟨h.hash, h.height, h.merkleRoot⟩, fun h => ⟨h.hash, h.height, h.merkleRoot⟩⟩

theorem Filed.withTip (hf : s.Filed) (tipId : Option Nat) : { s with tipId := tipId }.Filed :=
  ⟨(indexed_withTip s tipId).mpr hf.indexed, hf.fresh, hf.roots⟩

theorem Filed.withBulk (hf : s.Filed) (bulk : AList fun _ : Nat => BlockHeader) :
    { s with bulk := bulk }.Filed :=
  ⟨⟨hf.indexed.hash, hf.indexed.height, hf.indexed.merkleRoot⟩, hf.fresh, hf.roots⟩

theorem Filed.sameTree (hf : s.Filed) (hnew : s.New header) (hsame : (s.joined header).SameTree s')
    (hindexed : s'.Indexed) : s'.Filed where
  indexed := hindexed
  fresh id hid := by
    rw [hsame.nextId]
    exact hf.fresh_joined id (hsame.mem.mp hid)
  roots id hid id' hid' heq := by
    rw [hsame.merkleRootOf] at heq
    exact hf.roots_joined hnew id (hsame.mem.mp hid) id' (hsame.mem.mp hid') heq

theorem filed_empty : ({} : Inner).Filed :=
  ⟨⟨IndexOf.empty.congr (by simp), IndexOf.empty.congr (by simp [Active]),
    IndexOf.empty.congr (by simp [Active])⟩, by simp, by simp⟩

end Inner

/-! ## Runs of calls -/

open WalletToolbox.Chaintracks.Inner

/-- A call that changes what MemoryStorage stores. -/
inductive StorageCall where
  | insertHeader (header : LiveBlockHeader)
  | pruneLiveBlockHeaders (activeTipHeight : Nat)
  | migrateLiveToBulk (count : Nat)
  | deleteOlderLiveBlockHeaders (maxHeight : Nat)

/-- A MemoryStorage with its thresholds that serves one call after the other. A header to insert has
a merkle root of its own; `next` leaves the state alone when the insertion does not return. -/
def storageSystem (liveHeightThreshold reorgHeightThreshold : Nat) : System Inner StorageCall where
  init := {}
  Enabled s
    | .insertHeader header =>
      header.hash ∉ s.hashToId → ∀ h ∈ s.values, h.merkleRoot ≠ header.merkleRoot
    | _ => True
  next call s :=
    match call with
    | .insertHeader header => ((Inner.insertHeader reorgHeightThreshold header s).map Prod.snd).getD s
    | .pruneLiveBlockHeaders activeTipHeight =>
      (s.pruneLiveBlockHeaders liveHeightThreshold activeTipHeight).2
    | .migrateLiveToBulk count => (s.migrateLiveToBulk count).2
    | .deleteOlderLiveBlockHeaders maxHeight => (s.deleteOlderLiveBlockHeaders maxHeight).2

/-- A call after which no active header has lost its place: a new tip finds its place, another new
header does not come flagged as active, and no header that is pruned has the height of an active
one. -/
def Inner.KeepsIndexes (liveHeightThreshold reorgHeightThreshold : Nat) (s : Inner) :
    StorageCall → Prop
  | .insertHeader header => header.hash ∉ s.hashToId →
    if s.takesTip header then
      ∀ old new, s.switched reorgHeightThreshold header = some (old, new) →
        (s.tipStored header).InPlace old new
    else header.isActive = false
  | .pruneLiveBlockHeaders activeTipHeight => ∀ id h, s.headers.lookup id = some h →
    h.isActive = false → h.height < activeTipHeight - liveHeightThreshold →
      ∀ id', s.Active id' → s.heightOf id' ≠ h.height
  | _ => True

section Runs

variable {liveHeightThreshold reorgHeightThreshold : Nat} {s : Inner}

instance (call : StorageCall) :
    Decidable ((storageSystem liveHeightThreshold reorgHeightThreshold).Enabled s call) :=
  match call with
  | .insertHeader header =>
    inferInstanceAs (Decidable (header.hash ∉ s.hashToId →
      ∀ h ∈ s.values, h.merkleRoot ≠ header.merkleRoot))
  | .pruneLiveBlockHeaders _ | .migrateLiveToBulk _ | .deleteOlderLiveBlockHeaders _ =>
    inferInstanceAs (Decidable True)

theorem new_of_enabled {header : LiveBlockHeader}
    (hin : (storageSystem liveHeightThreshold reorgHeightThreshold).Enabled s (.insertHeader header))
    (hnew : header.hash ∉ s.hashToId) : s.New header := by
  refine ⟨hnew, ?_⟩
  intro id hid heq
  obtain ⟨h, hlookup⟩ := lookup_of_mem hid
  rw [merkleRootOf, hlookup] at heq
  exact hin hnew h (List.mem_map.mpr ⟨⟨id, h⟩, AList.mem_lookup_iff.mp hlookup, rfl⟩) heq

/-- What an insertion of a new header leaves. -/
theorem next_insertHeader {header : LiveBlockHeader} (hnew : header.hash ∉ s.hashToId) :
    (storageSystem liveHeightThreshold reorgHeightThreshold).next (.insertHeader header) s =
      if s.takesTip header then
        ((s.switched reorgHeightThreshold header).map fun b =>
          { (s.tipStored header).afterSwitch b.1 b.2 with tipId := some s.nextId }).getD s
      else s.joined header := by
  show ((Inner.insertHeader reorgHeightThreshold header s).map Prod.snd).getD s = _
  rw [insertHeader_state reorgHeightThreshold hnew]
  split_ifs <;> rfl

theorem next_dupe {header : LiveBlockHeader} (hdupe : header.hash ∈ s.hashToId) :
    (storageSystem liveHeightThreshold reorgHeightThreshold).next (.insertHeader header) s = s := by
  show ((Inner.insertHeader reorgHeightThreshold header s).map Prod.snd).getD s = _
  rw [insertHeader_dupe reorgHeightThreshold hdupe]
  rfl

/-- A call leaves the indexes right exactly when it keeps all active headers in their places. -/
theorem Inner.Filed.indexed_next (hf : s.Filed) {call : StorageCall}
    (hin : (storageSystem liveHeightThreshold reorgHeightThreshold).Enabled s call) :
    ((storageSystem liveHeightThreshold reorgHeightThreshold).next call s).Indexed ↔
      s.KeepsIndexes liveHeightThreshold reorgHeightThreshold call := by
  cases call with
  | insertHeader header =>
    by_cases hdupe : header.hash ∈ s.hashToId
    · rw [next_dupe hdupe]
      exact ⟨fun _ hnew => absurd hdupe hnew, fun _ => hf.indexed⟩
    · have hnew := new_of_enabled hin hdupe
      rw [next_insertHeader hdupe, KeepsIndexes, forall_prop_of_true hdupe]
      by_cases htip : s.takesTip header = true
      · rw [if_pos htip, if_pos htip]
        cases hswitched : s.switched reorgHeightThreshold header with
        | none => exact ⟨fun _ old new h => (nomatch h), fun _ => hf.indexed⟩
        | some b =>
          obtain ⟨hold, hstored⟩ := switched_stored hswitched
          rw [Option.map_some, Option.getD_some, indexed_withTip,
            hf.indexed_afterSwitch hnew hold hstored]
          constructor
          · intro h old new heq
            cases heq
            exact h
          · exact fun h => h b.1 b.2 rfl
      · rw [if_neg htip, if_neg htip]
        exact hf.indexed_joined hnew
  | pruneLiveBlockHeaders activeTipHeight =>
    refine (hf.indexed_remove (idsWhere_stored _) (nodup_idsWhere _)).trans ⟨?_, ?_⟩
    · intro h id header hlookup hinactive hbelow id' hactive
      rw [← heightOf_eq hlookup]
      refine h id (mem_idsWhere.mpr ⟨header, hlookup, by simp [hinactive, hbelow]⟩) id' hactive ?_
      intro hremoved
      obtain ⟨h', hlookup', hwhere⟩ := mem_idsWhere.mp hremoved
      rw [(active_iff hlookup').mp hactive] at hwhere
      cases hwhere
    · intro h id hid id' hactive _
      obtain ⟨header, hlookup, hwhere⟩ := mem_idsWhere.mp hid
      rw [Bool.and_eq_true, Bool.not_eq_true', decide_eq_true_eq] at hwhere
      rw [heightOf_eq hlookup]
      exact h id header hlookup hwhere.1 hwhere.2 id' hactive
  | migrateLiveToBulk count =>
    refine iff_of_true ?_ trivial
    show (s.migrateLiveToBulk count).2.Indexed
    rw [migrateLiveToBulk]
    split
    · exact hf.indexed
    · exact (hf.withBulk _).indexed_removeUpTo _
  | deleteOlderLiveBlockHeaders maxHeight =>
    refine iff_of_true ?_ trivial
    show (s.deleteOlderLiveBlockHeaders maxHeight).2.Indexed
    exact (indexed_withTip _ _).mpr (hf.indexed_removeUpTo maxHeight)

theorem Inner.Filed.next (hf : s.Filed) {call : StorageCall}
    (hin : (storageSystem liveHeightThreshold reorgHeightThreshold).Enabled s call)
    (h : ((storageSystem liveHeightThreshold reorgHeightThreshold).next call s).Indexed) :
    ((storageSystem liveHeightThreshold reorgHeightThreshold).next call s).Filed := by
  cases call with
  | insertHeader header =>
    by_cases hdupe : header.hash ∈ s.hashToId
    · rw [next_dupe hdupe]
      exact hf
    · have hnew := new_of_enabled hin hdupe
      rw [next_insertHeader hdupe] at h ⊢
      by_cases htip : s.takesTip header = true
      · rw [if_pos htip] at h ⊢
        cases hswitched : s.switched reorgHeightThreshold header with
        | none => exact hf
        | some b =>
          obtain ⟨hold, hstored⟩ := switched_stored hswitched
          rw [hswitched, Option.map_some, Option.getD_some, indexed_withTip] at h
          have hsame := (sameTree_storeTip s header).trans (afterSwitch_switch hold hstored).tree
          exact (hf.sameTree hnew hsame h).withTip _
      · rw [if_neg htip] at h ⊢
        exact hf.sameTree hnew (.refl _) h
  | pruneLiveBlockHeaders activeTipHeight =>
    exact hf.remove (idsWhere_stored _) (nodup_idsWhere _) h
  | migrateLiveToBulk count =>
    show (s.migrateLiveToBulk count).2.Filed
    rw [migrateLiveToBulk]
    split
    · exact hf
    · exact (hf.withBulk _).remove (idsWhere_stored _) (nodup_idsWhere _)
        ((hf.withBulk _).indexed_removeUpTo _)
  | deleteOlderLiveBlockHeaders maxHeight =>
    exact (hf.remove (idsWhere_stored _) (nodup_idsWhere _)
      (hf.indexed_removeUpTo maxHeight)).withTip _

theorem reaches_filed
    (h : (storageSystem liveHeightThreshold reorgHeightThreshold).Reaches
      (KeepsIndexes liveHeightThreshold reorgHeightThreshold) s) : s.Filed :=
  h.inv filed_empty fun _ _ hf hin hkeeps => hf.next hin ((hf.indexed_next hin).mpr hkeeps)

/-- In a run whose calls all keep the active headers in their places the indexes are right in every
state, and the next call leaves them right exactly when it does so too. -/
theorem indexes_consistent
    (h : (storageSystem liveHeightThreshold reorgHeightThreshold).Reaches
      (KeepsIndexes liveHeightThreshold reorgHeightThreshold) s) :
    s.Indexed ∧ ∀ call,
      (storageSystem liveHeightThreshold reorgHeightThreshold).Enabled s call →
        (((storageSystem liveHeightThreshold reorgHeightThreshold).next call s).Indexed ↔
          s.KeepsIndexes liveHeightThreshold reorgHeightThreshold call) :=
  have hf := reaches_filed h
  ⟨hf.indexed, fun _ hin => hf.indexed_next hin⟩

/-- A tip that switches no branches keeps the active headers in their places when its height is
free. -/
theorem Inner.Filed.keeps_of_free (hf : s.Filed) {header : LiveBlockHeader}
    (htip : s.takesTip header = true)
    (hswitched : s.switched reorgHeightThreshold header = some ([], []))
    (hfree : s.heightToId.lookup header.height = none) :
    s.KeepsIndexes liveHeightThreshold reorgHeightThreshold (.insertHeader header) := by
  intro _
  rw [if_pos htip, hswitched]
  intro old new heq
  cases heq
  have hsame := sameTree_storeTip s header
  have hactive : ∀ id, (s.tipStored header).ActiveAfter [] [] id → s.Active id ∨ id = s.nextId := by
    rintro id (hid | ⟨hid, -⟩)
    · cases hid
    · exact (active_storeTip s _ id).mp hid
  have htaken : ∀ id, s.Active id → (s.tipStored header).heightOf id ≠ header.height := by
    intro id hid hheight
    rw [tipStored, hsame.heightOf, (hf.keyOf_joined hid.stored).2.1] at hheight
    have hfound := (hf.indexed.height _ _).mpr ⟨hid, hheight⟩
    rw [hfree] at hfound
    cases hfound
  have hnext : (s.tipStored header).heightOf s.nextId = header.height := by
    rw [tipStored, hsame.heightOf, keyOf_joined_nextId.2.1]
  refine ⟨?_, List.forall_mem_nil _⟩
  intro id id' hid hid' heq
  rcases hactive id hid with hid | rfl
  · rcases hactive id' hid' with hid' | rfl
    · rw [tipStored, hsame.heightOf, (hf.keyOf_joined hid.stored).2.1,
        (hf.keyOf_joined hid'.stored).2.1] at heq
      exact hf.indexed.height.inj hid hid' heq
    · exact absurd (heq.trans hnext) (htaken id hid)
  · rcases hactive id' hid' with hid' | rfl
    · exact absurd (heq.symm.trans hnext) (htaken id' hid')
    · rfl

end Runs

/-! ## A pruned fork -/

/-- A chain of three blocks, and a branch of one block from the first header. -/
def shortFork : List StorageCall :=
  [.insertHeader (forkHeader 0 zeroHash "g"), .insertHeader (forkHeader 1 "g" "a1"),
    .insertHeader (forkHeader 1 "g" "b1"), .insertHeader (forkHeader 2 "a1" "a2")]

/-- With the first three headers there is a fork, and the indexes are right. -/
theorem indexes_consistent_shortFork :
    ∃ s, s.values.map (·.hash) = ["b1", "a1", "g"] ∧ s.Indexed ∧ ∀ call,
      (storageSystem 0 2).Enabled s call →
        (((storageSystem 0 2).next call s).Indexed ↔ s.KeepsIndexes 0 2 call) := by
  obtain ⟨s, hreach, hin, htip, hswitched, hfree, hfork⟩ : ∃ s,
      (storageSystem 0 2).Reaches (KeepsIndexes 0 2) s ∧
      (storageSystem 0 2).Enabled s (.insertHeader (forkHeader 1 "g" "a1")) ∧
      s.takesTip (forkHeader 1 "g" "a1") = true ∧
      s.switched 2 (forkHeader 1 "g" "a1") = some ([], []) ∧
      s.heightToId.lookup (forkHeader 1 "g" "a1").height = none ∧
      ∃ s', (storageSystem 0 2).next (.insertHeader (forkHeader 1 "g" "a1")) s = s' ∧
        (storageSystem 0 2).Enabled s' (.insertHeader (forkHeader 1 "g" "b1")) ∧
        s'.takesTip (forkHeader 1 "g" "b1") = false ∧
        ((storageSystem 0 2).next (.insertHeader (forkHeader 1 "g" "b1")) s').values.map (·.hash) =
          ["b1", "a1", "g"] :=
    ⟨(storageSystem 0 2).next (.insertHeader (forkHeader 0 zeroHash "g")) {},
      System.Reaches.init.step (by decide +kernel)
        (filed_empty.keeps_of_free (by decide +kernel) (by decide +kernel) (by decide +kernel)),
      by decide +kernel, by decide +kernel, by decide +kernel, by decide +kernel, _, rfl,
      by decide +kernel, by decide +kernel, by decide +kernel⟩
  obtain ⟨s', rfl, hin', hbehind, hvalues⟩ := hfork
  have hreach' := hreach.step hin ((reaches_filed hreach).keeps_of_free htip hswitched hfree)
  -- the second header of its height does not take the tip and comes inactive
  have hkeeps : KeepsIndexes 0 2 _ (.insertHeader (forkHeader 1 "g" "b1")) := fun _ => by
    rw [if_neg (Bool.eq_false_iff.mp hbehind)]
    rfl
  exact ⟨_, hvalues, indexes_consistent (hreach'.step hin' hkeeps)⟩

/-- The chain loses the index of the height at which the fork is pruned. -/
theorem indexes_not_consistent :
    ¬∀ liveHeightThreshold reorgHeightThreshold s,
      (storageSystem liveHeightThreshold reorgHeightThreshold).Reaches (fun _ _ => True) s →
        s.Indexed := by
  intro h
  obtain ⟨s, hreach, hlost, hstored⟩ : ∃ s, (storageSystem 0 2).Reaches (fun _ _ => True) s ∧
      s.heightToId.lookup 1 = none ∧
      (s.headers.lookup 2).map (fun header => (header.isActive, header.height)) = some (true, 1) :=
    ⟨(storageSystem 0 2).after {} (shortFork ++ [.pruneLiveBlockHeaders 2]),
      System.Reaches.after .init (by decide +kernel), by decide +kernel, by decide +kernel⟩
  obtain ⟨header, hlookup, hheader⟩ := Option.map_eq_some_iff.mp hstored
  obtain ⟨hactive, hheight⟩ := Prod.mk.inj hheader
  have hfound := ((h 0 2 s hreach).height 1 2).mpr
    ⟨⟨header, hlookup, hactive⟩, (heightOf_eq hlookup).trans hheight⟩
  rw [hlost] at hfound
  cases hfound

end WalletToolbox.Chaintracks
