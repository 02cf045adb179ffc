import WalletToolbox.Chaintracks.Chaintracks
import WalletToolbox.Laws.ForkChoice

/-! # Heights and reorganization events

A header is given its height once, from the parent that storage knows at that moment.
As long as every header is queued after its parent, heights are distances from the genesis header,
and as long as the reorganizations are within the threshold, their events name exactly the headers
that they deactivate. -/

namespace WalletToolbox.Chaintracks

open WalletToolbox.Lib WalletToolbox.Lib.Forest WalletToolbox.Chaintracks.Inner

/-- A previous hash that names no parent. -/
def NoParent (hash : String) : Prop := hash = zeroHash ∨ hash = ""

instance (hash : String) : Decidable (NoParent hash) := inferInstanceAs (Decidable (_ ∨ _))

variable {blockHash : BaseBlockHeader → String} {reorgHeightThreshold : Nat} {skipsDupe : Bool}
  {s s' : Inner} {base : BaseBlockHeader}

/-! ## One header -/

theorem find_none (h : base.previousHash ∉ s.hashToId) :
    s.findLiveHeaderForBlockHash base.previousHash = none := by
  rw [findLiveHeaderForBlockHash, AList.lookup_eq_none.mpr h, Option.bind_none]

/-- The height follows that of the stored parent. -/
theorem liveHeader_height (hr : s.Rooted NoParent) {parent : LiveBlockHeader}
    (hfind : s.findLiveHeaderForBlockHash base.previousHash = some parent) :
    (s.liveHeader blockHash base).height = parent.height + 1 := by
  have hgenesis : ¬base.IsGenesis := by
    intro hgenesis
    rw [find_none fun hmem => hr.hashes _ hmem hgenesis] at hfind
    cases hfind
  simp only [liveHeader, heightAndLink, if_neg hgenesis, hfind]

theorem liveHeader_genesis (h : base.previousHash ∉ s.hashToId) :
    (s.liveHeader blockHash base).height = 0 ∧
      (s.liveHeader blockHash base).previousHeaderId = none := by
  simp only [liveHeader, heightAndLink, find_none h, ite_self, and_self]

theorem liveHeader_joins (hr : s.Rooted NoParent) (hnew : blockHash base ∉ s.hashToId)
    (hknown : base.previousHash ∈ s.hashToId ∨ base.IsGenesis) (hhash : ¬NoParent (blockHash base)) :
    s.Joins (s.liveHeader blockHash base) :=
  hr.joins hnew hknown (fun _ hparent => liveHeader_height hr hparent)
    (fun hmem => (liveHeader_genesis hmem).2) hhash

/-! ## What an insertion delivers -/

/-- The event of an insertion lists, each once, the headers that were active before and are not
after, with their number and the tip that there was; an insertion that deactivates a header delivers
an event. -/
structure Insertion.Exact (i : Insertion) : Prop where
  lists : ∀ event ∈ i.event, ∃ ids : List Nat, ids.Nodup ∧
    (∀ id, id ∈ ids ↔ i.before.Active id ∧ ¬i.after.Active id) ∧
    event.deactivatedHeaders =
      ids.filterMap (fun id => (i.before.headers.lookup id).map (·.toBlockHeader)) ∧
    event.depth = ids.length ∧
    i.before.findChainTipHeader.map (·.toBlockHeader) = some event.oldTip
  always : ∀ id, i.before.Active id → ¬i.after.Active id → i.event.isSome

theorem Inner.Reports.exact {result : InsertHeaderResult} (hreports : Reports s result s')
    (hc : s.Chosen) (hdupe : result.dupe = true → result.reorgDepth = 0) (height : Nat) :
    Insertion.Exact
      { base, before := s, after := s'
        event := if skipsDupe && result.dupe then none
          else reorgEvent blockHash base height result } := by
  obtain ⟨ids, hnodup, hids, hlist⟩ := hreports.deactivated
  have hstored : ∀ id ∈ ids, id ∈ s.headers := by
    intro id hid
    obtain ⟨h, hlookup, -⟩ := ((hids id).mp hid).1
    exact mem_of_lookup hlookup
  have hdepth : result.reorgDepth = ids.length := by
    rw [hreports.depth, hlist, length_filterMap_lookup hstored]
  constructor
  · intro event hevent
    have hevent' : reorgEvent blockHash base height result = some event := by
      simp only at hevent
      split at hevent
      · cases hevent
      · exact hevent
    rw [reorgEvent] at hevent'
    split at hevent'
    next hpos =>
      cases hevent'
      refine ⟨ids, hnodup, hids, hlist, hdepth, ?_⟩
      have hne : result.deactivatedHeaders ≠ [] := by
        intro hnil
        rw [hreports.depth, hnil] at hpos
        cases hpos
      obtain ⟨id, hid⟩ := List.exists_mem_of_ne_nil ids fun hnil => by
        rw [hdepth, hnil] at hpos
        cases hpos
      obtain ⟨⟨h, hlookup, -⟩, -⟩ := (hids id).mp hid
      obtain ⟨tipId, htip⟩ := hc.tipped hlookup
      obtain ⟨tip, htipLookup⟩ := hc.stored htip
      have hfind : s.findChainTipHeader = some tip := by
        rw [findChainTipHeader, htip, Option.bind_some, htipLookup]
      simp only [hreports.priorTip hne, hfind, Option.map_some, Option.getD_some]
    next => cases hevent'
  · intro id hbefore hafter
    have hpos : 0 < result.reorgDepth := by
      rw [hdepth]
      exact List.length_pos_of_mem ((hids id).mpr ⟨hbefore, hafter⟩)
    have hnot : (skipsDupe && result.dupe) = false := by
      rw [Bool.and_eq_false_iff]
      right
      rw [← Bool.not_eq_true]
      intro htrue
      have hzero := hdupe htrue
      omega
    simp only [hnot, Bool.false_eq_true, ↓reduceIte, reorgEvent, if_pos hpos, Option.isSome_some]

/-- What storage keeps from one header to the next. -/
structure Inner.Sound (s : Inner) : Prop where
  rooted : s.Rooted NoParent
  chosen : s.Chosen
  bulk : s.bulk = ∅

theorem sound_empty : ({} : Inner).Sound := ⟨rooted_empty _, chosen_empty, rfl⟩

theorem insertHeader_not_dupe {header : LiveBlockHeader} {r : InsertHeaderResult}
    (hnew : header.hash ∉ s.hashToId)
    (h : insertHeader reorgHeightThreshold header s = some (r, s')) : r.dupe = false := by
  rw [insertHeader, if_neg hnew] at h
  dsimp only at h
  split at h
  next =>
    split at h
    next =>
      split at h
      next =>
        obtain ⟨⟨a, b, c⟩, -, heq⟩ := Option.map_eq_some_iff.mp h
        cases heq
        rfl
      next =>
        cases h
        rfl
    next =>
      cases h
      rfl
  next =>
    cases h
    rfl

/-- A header whose parent is known, and whose reorganization is within reach. -/
theorem Inner.Sound.insertBase (hs : s.Sound) (skipsDupe : Bool)
    (hknown : base.previousHash ∈ s.hashToId ∨ base.IsGenesis)
    (hhash : ¬NoParent (blockHash base))
    (hreach : blockHash base ∈ s.hashToId ∨
      s.Reachable reorgHeightThreshold (s.liveHeader blockHash base)) :
    ∃ i, insertBase blockHash reorgHeightThreshold skipsDupe base s = some i ∧ i.base = base ∧
      i.after.Sound ∧ i.Exact ∧ blockHash base ∈ i.after.hashToId ∧
      (∀ hash ∈ s.hashToId, hash ∈ i.after.hashToId) ∧
      (i.after = s ∨ (s.joined (s.liveHeader blockHash base)).SameTree i.after) := by
  by_cases hdupe : blockHash base ∈ s.hashToId
  · refine ⟨_, by rw [Chaintracks.insertBase, insertHeader_dupe _ hdupe, Option.map_some], rfl, hs,
      ?_, hdupe, fun _ h => h, .inl rfl⟩
    have hreports : Reports s ({ dupe := true } : InsertHeaderResult) s :=
      .quiet (fun _ h => h) rfl rfl
    exact hreports.exact hs.chosen (fun _ => rfl) _
  · have hj := liveHeader_joins hs.rooted hdupe hknown hhash
    obtain ⟨r, s', heq, htree, hchosen, hbulk, hreports⟩ := hs.chosen.insertHeader
      hs.rooted.linked hj (hreach.resolve_left hdupe) rfl rfl
    have hindex : s'.hashToId = s.hashToId.insert (blockHash base) s.nextId :=
      htree.hashToId.trans (hashToId_joined s _)
    refine ⟨_, by rw [Chaintracks.insertBase, heq, Option.map_some], rfl,
      ⟨hs.rooted.next hj hknown hhash htree, hchosen, hbulk.trans hs.bulk⟩, ?_, ?_, ?_, .inr htree⟩
    · refine hreports.exact hs.chosen (fun htrue => ?_) _
      rw [insertHeader_not_dupe hdupe heq] at htrue
      cases htrue
    · simp only [hindex, AList.mem_insert, true_or]
    · intro hash hmem
      simp only [hindex, AList.mem_insert, hmem, or_true]

/-! ## Batches -/

/-- Every header of a queue has a hash of its own, and its parent is stored or before it. -/
def Known (blockHash : BaseBlockHeader → String) (s : Inner) (queue : List BaseBlockHeader) : Prop :=
  ∀ before base after, queue = before ++ base :: after → ¬NoParent (blockHash base) ∧
    (base.IsGenesis ∨ base.previousHash ∈ s.hashToId ∨
      ∃ parent ∈ before, blockHash parent = base.previousHash)

/-- No reorganization of a batch is out of reach. -/
def WithinReach (blockHash : BaseBlockHeader → String) (reorgHeightThreshold : Nat)
    (skipsDupe : Bool) : List BaseBlockHeader → Inner → Prop
  | [], _ => True
  | base :: rest, s =>
    (blockHash base ∈ s.hashToId ∨
      s.Reachable reorgHeightThreshold (s.liveHeader blockHash base)) ∧
    ∀ i ∈ insertBase blockHash reorgHeightThreshold skipsDupe base s,
      WithinReach blockHash reorgHeightThreshold skipsDupe rest i.after

/-- The distance of a header from the genesis header, along the previous hashes. -/
inductive Distance (blockHash : BaseBlockHeader → String) (bases : List BaseBlockHeader) :
    String → Nat → Prop
  | genesis {base : BaseBlockHeader} (mem : base ∈ bases) (genesis : base.IsGenesis) :
      Distance blockHash bases (blockHash base) 0
  | child {base : BaseBlockHeader} {n : Nat} (mem : base ∈ bases) (notGenesis : ¬base.IsGenesis)
      (parent : Distance blockHash bases base.previousHash n) :
      Distance blockHash bases (blockHash base) (n + 1)

variable {bases bases' queue : List BaseBlockHeader}

theorem Distance.mono {hash : String} {n : Nat} (hsub : ∀ base ∈ bases, base ∈ bases')
    (h : Distance blockHash bases hash n) : Distance blockHash bases' hash n := by
  induction h with
  | genesis mem genesis => exact .genesis (hsub _ mem) genesis
  | child mem notGenesis _ ih => exact .child (hsub _ mem) notGenesis ih

theorem Distance.unique {hash : String} {n m : Nat}
    (hdistinct : ∀ b ∈ bases, ∀ c ∈ bases, blockHash b = blockHash c → b = c)
    (h : Distance blockHash bases hash n) (h' : Distance blockHash bases hash m) : n = m := by
  induction h generalizing m with
  | @genesis b mem genesis =>
    generalize hhash : blockHash b = hash at h'
    cases h' with
    | genesis => rfl
    | child mem' notGenesis =>
      obtain rfl := hdistinct _ mem _ mem' hhash
      exact absurd genesis notGenesis
  | @child b n mem notGenesis _ ih =>
    generalize hhash : blockHash b = hash at h'
    cases h' with
    | genesis mem' genesis =>
      obtain rfl := hdistinct _ mem _ mem' hhash
      exact absurd genesis notGenesis
    | child mem' _ parent' =>
      obtain rfl := hdistinct _ mem _ mem' hhash
      rw [ih parent']

/-- The stored headers are at their distances. -/
def Measured (blockHash : BaseBlockHeader → String) (bases : List BaseBlockHeader) (s : Inner) :
    Prop :=
  ∀ id h, s.headers.lookup id = some h → Distance blockHash bases h.hash h.height

theorem Measured.insert (hm : Measured blockHash bases s) (hs : s.Sound) (hbase : base ∈ bases)
    (hknown : base.previousHash ∈ s.hashToId ∨ base.IsGenesis)
    (htree : s' = s ∨ (s.joined (s.liveHeader blockHash base)).SameTree s') :
    Measured blockHash bases s' := by
  rcases htree with rfl | htree
  · exact hm
  intro id h hlookup
  obtain ⟨h', hlookup', hunmarked⟩ := htree.lookup' hlookup
  have hhash : h.hash = h'.hash := congrArg (·.hash) hunmarked
  have hheight : h.height = h'.height := congrArg (·.height) hunmarked
  rw [hhash, hheight]
  rcases lookup_joined_cases hlookup' with ⟨-, rfl⟩ | ⟨-, hstored⟩
  · rw [place_hash, place_height]
    by_cases hgenesis : base.IsGenesis
    · have hnot : base.previousHash ∉ s.hashToId := fun hmem => hs.rooted.hashes _ hmem hgenesis
      rw [(liveHeader_genesis hnot).1]
      exact .genesis hbase hgenesis
    · have hmem := hknown.resolve_right hgenesis
      obtain ⟨above, habove⟩ := Option.isSome_iff_exists.mp (AList.lookup_isSome.mpr hmem)
      obtain ⟨q, hq, hqhash⟩ := (hs.rooted.linked.hashed _ _).mp habove
      have hfind : s.findLiveHeaderForBlockHash base.previousHash = some q := by
        rw [findLiveHeaderForBlockHash, habove, Option.bind_some, hq]
      rw [liveHeader_height hs.rooted hfind]
      exact .child hbase hgenesis (hqhash ▸ hm above q hq)
  · exact hm id h' hstored

/-- A whole batch. -/
theorem Inner.Sound.insertBatch (hs : s.Sound) (hknown : Known blockHash s queue)
    (hreach : WithinReach blockHash reorgHeightThreshold skipsDupe queue s)
    (hm : Measured blockHash bases s) (hbases : ∀ base ∈ queue, base ∈ bases) :
    ∃ s' insertions,
      insertBatch blockHash reorgHeightThreshold skipsDupe queue s = some (s', insertions) ∧
      s'.Sound ∧ (∀ i ∈ insertions, i.Exact) ∧ insertions.map (·.base) = queue ∧
      (∀ base ∈ queue, blockHash base ∈ s'.hashToId) ∧
      (∀ hash ∈ s.hashToId, hash ∈ s'.hashToId) ∧ Measured blockHash bases s' := by
  induction queue generalizing s with
  | nil => exact ⟨s, [], rfl, hs, nofun, rfl, nofun, fun _ h => h, hm⟩
  | cons base rest ih =>
    obtain ⟨hhash, hparent⟩ := hknown [] base rest rfl
    have hparent' : base.previousHash ∈ s.hashToId ∨ base.IsGenesis := by
      rcases hparent with hgenesis | hmem | ⟨parent, hmem, -⟩
      · exact .inr hgenesis
      · exact .inl hmem
      · cases hmem
    obtain ⟨i, heq, hbase, hs', hexact, hstored, hgrown, htree⟩ :=
      hs.insertBase skipsDupe hparent' hhash hreach.1
    have hknown' : Known blockHash i.after rest := by
      rintro before b after rfl
      obtain ⟨hb, hp⟩ := hknown (base :: before) b after rfl
      refine ⟨hb, ?_⟩
      rcases hp with hgenesis | hmem | ⟨parent, hmem, hlink⟩
      · exact .inl hgenesis
      · exact .inr (.inl (hgrown _ hmem))
      · rcases List.mem_cons.mp hmem with rfl | hmem
        · exact .inr (.inl (hlink ▸ hstored))
        · exact .inr (.inr ⟨parent, hmem, hlink⟩)
    obtain ⟨s', insertions, hrest, hs'', hexacts, hmap, hall, hgrown', hm'⟩ :=
      ih hs' hknown' (hreach.2 i heq)
        (hm.insert hs (hbases _ List.mem_cons_self) hparent' htree)
        fun b hb => hbases b (List.mem_cons_of_mem _ hb)
    refine ⟨s', i :: insertions, ?_, hs'', ?_, ?_, ?_, fun hash h => hgrown' _ (hgrown _ h), hm'⟩
    · rw [Chaintracks.insertBatch, heq]
      simp only [hrest, Option.map_some]
    · rintro j hj
      rcases List.mem_cons.mp hj with rfl | hj
      · exact hexact
      · exact hexacts j hj
    · rw [List.map_cons, hbase, hmap]
    · rintro b hb
      rcases List.mem_cons.mp hb with rfl | hb
      · exact hgrown' _ hstored
      · exact hall b hb

/-! ## Runs -/

/-- A header is queued after its parent. -/
def Action.ParentQueued (blockHash : BaseBlockHeader → String) (st : State) : Action → Prop
  | .addHeader base => base.IsGenesis ∨ ∃ parent ∈ st.queued, blockHash parent = base.previousHash
  | _ => True

/-- The reorganizations are no deeper than the threshold. -/
def Action.Shallow (blockHash : BaseBlockHeader → String) (reorgHeightThreshold : Nat) (st : State) :
    Action → Prop
  | .addHeader _ => True
  | .processPendingHeaders =>
    WithinReach blockHash reorgHeightThreshold true st.baseHeaders st.storage
  | .backgroundPass => WithinReach blockHash reorgHeightThreshold false st.baseHeaders st.storage

/-- The condition on the actions of a run. -/
def InOrder (blockHash : BaseBlockHeader → String) (reorgHeightThreshold : Nat) (st : State)
    (a : Action) : Prop :=
  a.ParentQueued blockHash st ∧ a.Shallow blockHash reorgHeightThreshold st

/-- What holds in every state of such a run. -/
structure State.Tracked (blockHash : BaseBlockHeader → String) (st : State) : Prop where
  sound : st.storage.Sound
  known : Known blockHash st.storage st.baseHeaders
  stored : ∀ i ∈ st.insertions, blockHash i.base ∈ st.storage.hashToId
  exact : ∀ i ∈ st.insertions, i.Exact
  measured : Measured blockHash st.queued st.storage

variable {st : State}

theorem State.Tracked.add (ht : st.Tracked blockHash) (hhash : ¬NoParent (blockHash base))
    (hparent : base.IsGenesis ∨ ∃ parent ∈ st.queued, blockHash parent = base.previousHash) :
    ({ st with baseHeaders := st.baseHeaders ++ [base] } : State).Tracked blockHash where
  sound := ht.sound
  known before b after hqueue := by
    rcases List.eq_nil_or_concat after with rfl | ⟨after', c, rfl⟩
    · obtain ⟨rfl, hb⟩ := List.append_inj' hqueue rfl
      cases hb
      refine ⟨hhash, ?_⟩
      rcases hparent with hgenesis | ⟨parent, hmem, hlink⟩
      · exact .inl hgenesis
      · rcases List.mem_append.mp hmem with hmem | hmem
        · obtain ⟨i, hi, rfl⟩ := List.mem_map.mp hmem
          exact .inr (.inl (hlink ▸ ht.stored i hi))
        · exact .inr (.inr ⟨parent, hmem, hlink⟩)
    · rw [List.concat_eq_append, ← List.cons_append, ← List.append_assoc] at hqueue
      obtain ⟨hqueue', -⟩ := List.append_inj' hqueue rfl
      exact ht.known before b after' hqueue'
  stored := ht.stored
  exact := ht.exact
  measured id h hlookup := (ht.measured id h hlookup).mono fun b hb => by
    rw [State.queued, ← List.append_assoc]
    exact List.mem_append_left _ hb

/-- The batch of a queue returns, and leaves a state as before. -/
theorem State.Tracked.drain (ht : st.Tracked blockHash) (skipsDupe : Bool)
    (hreach : WithinReach blockHash reorgHeightThreshold skipsDupe st.baseHeaders st.storage) :
    (insertBatch blockHash reorgHeightThreshold skipsDupe st.baseHeaders st.storage).isSome ∧
      (st.drain (insertBatch blockHash reorgHeightThreshold skipsDupe)).Tracked blockHash := by
  obtain ⟨s', insertions, heq, hs', hexacts, hmap, hall, hgrown, hm⟩ :=
    ht.sound.insertBatch ht.known hreach ht.measured fun b hb => List.mem_append_right _ hb
  have hdrain : st.drain (insertBatch blockHash reorgHeightThreshold skipsDupe) =
      { storage := s', baseHeaders := [], insertions := st.insertions ++ insertions } := by
    simp only [State.drain, heq]
  rw [hdrain]
  refine ⟨by rw [heq]; rfl, hs', ?_, ?_, ?_, ?_⟩
  · intro before b after hqueue
    have hlen := congrArg List.length hqueue
    simp at hlen
  · intro i hi
    rcases List.mem_append.mp hi with hi | hi
    · exact hgrown _ (ht.stored i hi)
    · exact hall _ (hmap ▸ List.mem_map_of_mem hi)
  · intro i hi
    rcases List.mem_append.mp hi with hi | hi
    · exact ht.exact i hi
    · exact hexacts i hi
  · rw [State.queued] at hm
    simpa only [State.queued, List.map_append, hmap, List.append_nil] using hm

theorem tracked_empty : ({} : State).Tracked blockHash where
  sound := sound_empty
  known before b after hqueue := by
    have hlen := congrArg List.length hqueue
    simp at hlen
  stored := nofun
  exact := nofun
  measured id h hlookup := by simp at hlookup

theorem reaches_tracked
    (h : (chaintracks blockHash reorgHeightThreshold).Reaches
      (InOrder blockHash reorgHeightThreshold) st) : st.Tracked blockHash := by
  refine h.inv (I := State.Tracked blockHash) tracked_empty ?_
  intro st a ht henabled ⟨hparent, hshallow⟩
  cases a with
  | addHeader base => exact ht.add (fun h => h.elim henabled.1 henabled.2) hparent
  | processPendingHeaders => exact (ht.drain true hshallow).2
  | backgroundPass => exact (ht.drain false hshallow).2

/-- Where every header is queued after its parent and no reorganization is deeper than the
threshold, every batch returns and every event that was delivered names exactly what its insertion
deactivated. -/
theorem reorg_events_exact
    (h : (chaintracks blockHash reorgHeightThreshold).Reaches
      (InOrder blockHash reorgHeightThreshold) st) :
    (∀ i ∈ st.insertions, i.Exact) ∧
      ∀ skipsDupe, WithinReach blockHash reorgHeightThreshold skipsDupe st.baseHeaders st.storage →
        (insertBatch blockHash reorgHeightThreshold skipsDupe st.baseHeaders st.storage).isSome :=
  have ht := reaches_tracked h
  ⟨ht.exact, fun skipsDupe hreach => (ht.drain skipsDupe hreach).1⟩

/-- The first header of the main chain. -/
def genesisBlock : BaseBlockHeader where
  version := 1
  previousHash := zeroHash
  merkleRoot := "4a5e1e4baab89f3a32518a88c31bc87f618f76673e2cc77ab2127b7afdeda33b"
  time := 1231006505
  bits := 0x1d00ffff
  nonce := 2083236893

/-- The second one. -/
def blockOne : BaseBlockHeader where
  version := 1
  previousHash := "000000000019d6689c085ae165831e934ff763ae46a2a6c172b3f1b60a8ce26f"
  merkleRoot := "0e3e2357e806b6cdb1f70b54c3a3a17b6714ee1f0e68bebb44a74b1efd512098"
  time := 1231469665
  bits := 0x1d00ffff
  nonce := 2573394689

/-- A header beside the second one that claims more work. -/
def rivalBlock : BaseBlockHeader := { blockOne with bits := 0x1c00ffff, nonce := 0 }

/-- The hashes of these three headers. -/
def knownHash (base : BaseBlockHeader) : String :=
  if base.nonce = 2083236893 then
    "000000000019d6689c085ae165831e934ff763ae46a2a6c172b3f1b60a8ce26f"
  else if base.nonce = 2573394689 then
    "00000000839a8e6886ab5951d76f411475428afc90947ee320161bbf18eb6048"
  else "0f03254bf0f554110af4c1dba79b9dddeb456ad0ae9ad300a698e56ea838c027"

/-- Queue a header and process it. -/
def track (base : BaseBlockHeader) (st : State) : State :=
  (chaintracks knownHash 1).after st [.addHeader base, .processPendingHeaders]

theorem track_inOrder (h : (chaintracks knownHash 1).Reaches (InOrder knownHash 1) st)
    (hqueue : st.baseHeaders = []) (hhash : ¬NoParent (knownHash base))
    (hparent : (Action.addHeader base).ParentQueued knownHash st)
    (hreach : st.storage.Reachable 1 (st.storage.liveHeader knownHash base)) :
    (chaintracks knownHash 1).Reaches (InOrder knownHash 1) (track base st) := by
  refine h.after ⟨⟨⟨fun h => hhash (.inl h), fun h => hhash (.inr h)⟩, hparent, trivial⟩,
    ⟨trivial, trivial, ?_⟩, trivial⟩
  show WithinReach knownHash 1 true (st.baseHeaders ++ [base]) st.storage
  rw [hqueue]
  exact ⟨.inr hreach, fun _ _ => trivial⟩

/-- The two headers of the chain. -/
def chained : State := track blockOne (track genesisBlock {})

theorem rival_reachable :
    chained.storage.Reachable 1 (chained.storage.liveHeader knownHash rivalBlock) := by
  have hfacts : chained.storage.tipId = some 2 ∧ chained.storage.parentOf 2 = some 1 ∧
      chained.storage.hashToId.lookup rivalBlock.previousHash = some 1 ∧
      (chained.storage.liveHeader knownHash rivalBlock).height = 1 := by
    decide +kernel
  obtain ⟨htip, hparent, habove, hheight⟩ := hfacts
  intro tipId tip htipId _ _ _
  rw [htip] at htipId
  cases htipId
  refine ⟨1, 1, habove, .single hparent, .refl 1, ?_⟩
  rw [hheight]
  exact Nat.le_trans (Nat.min_le_right _ _) (Nat.le_add_left _ _)

theorem rival_inOrder :
    (chaintracks knownHash 1).Reaches (InOrder knownHash 1) (track rivalBlock chained) := by
  have hhashes : ∀ base ∈ [genesisBlock, blockOne, rivalBlock], ¬NoParent (knownHash base) := by
    decide +kernel
  have hstays : ({} : Inner).Stays (({} : Inner).liveHeader knownHash genesisBlock) ∧
      (track genesisBlock {}).storage.Stays
        ((track genesisBlock {}).storage.liveHeader knownHash blockOne) := by
    decide +kernel
  have hqueued : genesisBlock ∈ (track genesisBlock {}).queued ∧ genesisBlock ∈ chained.queued := by
    decide +kernel
  have hgenesis := track_inOrder .init rfl (hhashes genesisBlock (by simp)) (.inl (.inl rfl))
    (hstays.1.reachable 1)
  have hchained := track_inOrder hgenesis (by decide +kernel) (hhashes blockOne (by simp))
    (.inr ⟨genesisBlock, hqueued.1, by decide +kernel⟩) (hstays.2.reachable 1)
  exact track_inOrder hchained (by decide +kernel) (hhashes rivalBlock (by simp))
    (.inr ⟨genesisBlock, hqueued.2, by decide +kernel⟩) rival_reachable

/-- The rival takes the tip over, and the event names the header that it replaces. -/
theorem reorg_events_exact_rival :
    (track rivalBlock chained).insertions.map
        (fun i => i.event.map fun event => (event.depth, event.deactivatedHeaders.map (·.hash))) =
      [none, none, some (1, [knownHash blockOne])] ∧
    ∀ i ∈ (track rivalBlock chained).insertions, i.Exact :=
  ⟨by decide +kernel, (reorg_events_exact rival_inOrder).1⟩

/-- The heights that storage answers with are the distances from the genesis header. -/
def HeightsAreDistances (blockHash : BaseBlockHeader → String) (st : State) : Prop :=
  (∀ hash h, st.storage.findLiveHeaderForBlockHash hash = some h →
    Distance blockHash st.queued hash h.height) ∧
  ∀ height b, st.storage.findHeaderForHeight height = some b ↔
    b ∈ st.storage.activeBlocks ∧ Distance blockHash st.queued b.hash height

/-- Where every header is queued after its parent and no reorganization is deeper than the
threshold, heights are distances. -/
theorem heights_are_distances
    (h : (chaintracks blockHash reorgHeightThreshold).Reaches
      (InOrder blockHash reorgHeightThreshold) st)
    (hdistinct : ∀ b ∈ st.queued, ∀ c ∈ st.queued, blockHash b = blockHash c → b = c) :
    HeightsAreDistances blockHash st := by
  have ht := reaches_tracked h
  refine ⟨fun hash header hfind => ?_, fun height b => ?_⟩
  · obtain ⟨id, hid, hlookup⟩ := Option.bind_eq_some_iff.mp hfind
    obtain ⟨header', hlookup', rfl⟩ := (ht.sound.rooted.linked.hashed _ _).mp hid
    rw [hlookup] at hlookup'
    cases hlookup'
    exact ht.measured id header hlookup
  · rw [findHeaderForHeight_iff ht.sound.chosen ht.sound.bulk]
    refine and_congr_right fun hactive => ?_
    obtain ⟨header, hmem, -, rfl⟩ := hactive
    obtain ⟨id, hlookup⟩ := mem_values.mp hmem
    have hdistance := ht.measured id header hlookup
    constructor
    · rintro rfl
      exact hdistance
    · exact fun hdistance' => hdistance.unique hdistinct hdistance'

/-- The heights of a run with a reorganization. -/
theorem heights_are_distances_rival :
    (track rivalBlock chained).storage.findHeaderForHeight 1 =
        some (rivalBlock.toBlockHeaderAtHeight knownHash 1) ∧
      HeightsAreDistances knownHash (track rivalBlock chained) := by
  refine ⟨by decide +kernel, heights_are_distances rival_inOrder ?_⟩
  have hqueued : (track rivalBlock chained).queued = [genesisBlock, blockOne, rivalBlock] := by
    decide +kernel
  rw [hqueued]
  decide +kernel

/-- A header that is processed before its parent stays at height zero. -/
theorem early_child_at_height_zero :
    ¬∀ blockHash reorgHeightThreshold st,
      (chaintracks blockHash reorgHeightThreshold).Reaches (fun _ _ => True) st →
      st.baseHeaders = [] →
      (∀ b ∈ st.queued, ∀ c ∈ st.queued, blockHash b = blockHash c → b = c) →
      (∀ b ∈ st.queued, b.IsGenesis ∨ ∃ parent ∈ st.queued, blockHash parent = b.previousHash) →
      HeightsAreDistances blockHash st := by
  intro h
  have hreach : (chaintracks knownHash 1).Reaches (fun _ _ => True)
      (track genesisBlock (track blockOne {})) :=
    (System.Reaches.after .init (by decide +kernel)).after (by decide +kernel)
  have hfacts : (track genesisBlock (track blockOne {})).baseHeaders = [] ∧
      (track genesisBlock (track blockOne {})).queued = [blockOne, genesisBlock] ∧
      ((track genesisBlock (track blockOne {})).storage.findLiveHeaderForBlockHash
        (knownHash blockOne)).map (·.height) = some 0 := by
    decide +kernel
  obtain ⟨hdone, hqueued, hfind⟩ := hfacts
  have hheights := h knownHash 1 _ hreach hdone (by rw [hqueued]; decide +kernel)
    (by rw [hqueued]; decide +kernel)
  obtain ⟨child, hchild, hzero⟩ := Option.map_eq_some_iff.mp hfind
  have hdistance := hheights.1 _ _ hchild
  rw [hzero, hqueued] at hdistance
  have hnot : ∀ b ∈ [blockOne, genesisBlock], b.IsGenesis → knownHash b ≠ knownHash blockOne := by
    decide +kernel
  generalize hhash : knownHash blockOne = hash at hdistance hnot
  cases hdistance with
  | genesis mem genesis => exact hnot _ mem genesis rfl

end WalletToolbox.Chaintracks
