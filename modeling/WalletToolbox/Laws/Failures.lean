import WalletToolbox.Chaintracks.Failures
import WalletToolbox.Laws.Chaintracks
import WalletToolbox.Laws.Indexes

/-! # Headers that a failure drops

The queue is emptied before its headers are processed, so a header that no insertion has stored is
neither queued nor stored.
`process_pending_headers` drops the rest of its batch at the first failure, a pass of the background
task the headers whose own insertion fails. -/

namespace WalletToolbox.Chaintracks

open WalletToolbox.Lib WalletToolbox.Chaintracks.Inner

variable {blockHash : BaseBlockHeader → String} {reorgHeightThreshold : Nat}
  {stopsAtFailure : Bool} {s s' : Inner} {header : LiveBlockHeader} {hash : String}

/-! ## One insertion -/

namespace Inner

/-- The hash index leads to stored headers with these hashes. -/
structure HashFiled (s : Inner) : Prop where
  fresh : ∀ id ∈ s.headers, id < s.nextId
  found : ∀ {hash id}, s.hashToId.lookup hash = some id →
    ∃ h, s.headers.lookup id = some h ∧ h.hash = hash

/-- A header with the hash is stored and found. -/
def Holds (s : Inner) (hash : String) : Prop :=
  ∃ h ∈ s.findLiveHeaderForBlockHash hash, h.hash = hash

instance (s : Inner) (hash : String) : Decidable (s.Holds hash) :=
  inferInstanceAs (Decidable (∃ h ∈ s.findLiveHeaderForBlockHash hash, h.hash = hash))

theorem hashFiled_empty : ({} : Inner).HashFiled where
  fresh id hid := by simp at hid
  found hlookup := by simp at hlookup

theorem HashFiled.holds_iff (hf : s.HashFiled) : s.Holds hash ↔ hash ∈ s.hashToId := by
  constructor
  · rintro ⟨h, hfind, -⟩
    obtain ⟨id, hlookup, -⟩ := Option.bind_eq_some_iff.mp hfind
    exact AList.lookup_isSome.mp (hlookup ▸ rfl)
  · intro hmem
    obtain ⟨id, hlookup⟩ := Option.isSome_iff_exists.mp (AList.lookup_isSome.mpr hmem)
    obtain ⟨h, hstored, hhash⟩ := hf.found hlookup
    exact ⟨h, Option.bind_eq_some_iff.mpr ⟨id, hlookup, hstored⟩, hhash⟩

theorem HashFiled.joined (hf : s.HashFiled) : (s.joined header).HashFiled where
  fresh id hid := by
    show id < s.nextId + 1
    rcases mem_headers_joined.mp hid with hid | rfl
    · exact Nat.lt_succ_of_lt (hf.fresh id hid)
    · exact Nat.lt_succ_self _
  found {hash id} hlookup := by
    rw [hashToId_joined] at hlookup
    by_cases hown : hash = header.hash
    · subst hown
      rw [AList.lookup_insert, Option.some_inj] at hlookup
      subst hlookup
      exact ⟨s.place header, lookup_joined_nextId, place_hash s header⟩
    · rw [AList.lookup_insert_ne hown] at hlookup
      obtain ⟨h, hstored, hhash⟩ := hf.found hlookup
      refine ⟨h, ?_, hhash⟩
      rw [lookup_joined, if_neg (Nat.ne_of_lt (hf.fresh id (mem_of_lookup hstored)))]
      exact hstored

theorem HashFiled.sameTree (hf : s.HashFiled) (hsame : s.SameTree s') : s'.HashFiled where
  fresh id hid := by
    rw [hsame.nextId]
    exact hf.fresh id (hsame.mem.mp hid)
  found hlookup := by
    rw [hsame.hashToId] at hlookup
    obtain ⟨h, hstored, hhash⟩ := hf.found hlookup
    obtain ⟨h', hstored', hunmarked⟩ := hsame.lookup hstored
    exact ⟨h', hstored', (congrArg (·.hash) hunmarked).trans hhash⟩

/-- An insertion that returns leaves a duplicate alone and joins another header to the tree. -/
theorem insertHeader_tree (h : (insertHeader reorgHeightThreshold header s).map Prod.snd = some s') :
    header.hash ∈ s.hashToId ∧ s' = s ∨
      header.hash ∉ s.hashToId ∧ (s.joined header).SameTree s' := by
  by_cases hdupe : header.hash ∈ s.hashToId
  · rw [insertHeader_dupe reorgHeightThreshold hdupe] at h
    exact .inl ⟨hdupe, (Option.some.inj h).symm⟩
  · rw [insertHeader_state reorgHeightThreshold hdupe] at h
    refine .inr ⟨hdupe, ?_⟩
    split at h
    · obtain ⟨b, hswitched, rfl⟩ := Option.map_eq_some_iff.mp h
      obtain ⟨hold, hstored⟩ := switched_stored hswitched
      have hsame := (sameTree_storeTip s header).trans (afterSwitch_switch hold hstored).tree
      exact ⟨hsame.headers, hsame.hashToId, hsame.nextId⟩
    · obtain rfl := Option.some.inj h
      exact .refl _

/-- An insertion that returns stores its hash and keeps those that were stored. -/
theorem HashFiled.insertHeader (hf : s.HashFiled)
    (h : (insertHeader reorgHeightThreshold header s).map Prod.snd = some s') :
    s'.HashFiled ∧ ∀ hash, hash ∈ s'.hashToId ↔ hash ∈ s.hashToId ∨ hash = header.hash := by
  rcases insertHeader_tree h with ⟨hdupe, rfl⟩ | ⟨-, hsame⟩
  · refine ⟨hf, fun hash => ⟨.inl, ?_⟩⟩
    rintro (hmem | rfl)
    · exact hmem
    · exact hdupe
  · refine ⟨hf.joined.sameTree hsame, fun hash => ?_⟩
    rw [hsame.hashToId, hashToId_joined, AList.mem_insert]
    exact or_comm

end Inner

/-! ## Batches -/

/-- The header is stored by its own turn. -/
def Failures.stores (stopsAtFailure : Bool) (failure : Failures) (base : BaseBlockHeader) : Bool :=
  !(stopsAtFailure && failure.parentUnknown base) && failure.insert != some .before

/-- The turn of the header is the last one. -/
def Failures.stops (stopsAtFailure : Bool) (failure : Failures) (base : BaseBlockHeader) : Bool :=
  stopsAtFailure && (failure.parentUnknown base || failure.insert.isSome)

/-- The headers of a batch that are stored. -/
def storedBy (stopsAtFailure : Bool) : List BaseBlockHeader → List Failures → List BaseBlockHeader
  | [], _ => []
  | base :: rest, failures =>
    let failure := failures.headD {}
    (if failure.stores stopsAtFailure base then [base] else []) ++
      if failure.stops stopsAtFailure base then []
      else storedBy stopsAtFailure rest failures.tail

/-- The headers of a batch that a failure drops. -/
def droppedBy (stopsAtFailure : Bool) : List BaseBlockHeader → List Failures → List BaseBlockHeader
  | [], _ => []
  | base :: rest, failures =>
    let failure := failures.headD {}
    (if failure.stores stopsAtFailure base then [] else [base]) ++
      if failure.stops stopsAtFailure base then rest
      else droppedBy stopsAtFailure rest failures.tail

theorem mem_batch_iff {base : BaseBlockHeader} (batch : List BaseBlockHeader)
    (failures : List Failures) :
    base ∈ batch ↔ base ∈ storedBy stopsAtFailure batch failures ∨
      base ∈ droppedBy stopsAtFailure batch failures := by
  induction batch generalizing failures with
  | nil => simp [storedBy, droppedBy]
  | cons head rest ih =>
    rw [List.mem_cons, storedBy, droppedBy, List.mem_append, List.mem_append]
    by_cases hstops : (failures.headD {}).stops stopsAtFailure head = true
    · rw [if_pos hstops, if_pos hstops]
      split <;> simp
    · rw [if_neg hstops, if_neg hstops, ih failures.tail]
      split <;> simp [or_assoc, or_left_comm]

/-- One turn: the header is stored or dropped, and the rest follows or is dropped. -/
theorem insertOrFailBatch_cons (base : BaseBlockHeader) (rest : List BaseBlockHeader)
    (failures : List Failures) (s : Inner) :
    insertOrFailBatch blockHash reorgHeightThreshold stopsAtFailure (base :: rest) failures s =
      (if (failures.headD {}).stores stopsAtFailure base then
        (s.insertHeader reorgHeightThreshold (s.liveHeaderOr blockHash
          ((failures.headD {}).parentUnknown base) base)).map Prod.snd
      else some s).bind fun s =>
        if (failures.headD {}).stops stopsAtFailure base then some s
        else insertOrFailBatch blockHash reorgHeightThreshold stopsAtFailure rest failures.tail s := by
  rw [insertOrFailBatch, Failures.stores, Failures.stops]
  cases stopsAtFailure <;> cases (failures.headD {}).parentUnknown base <;>
    rcases (failures.headD {}).insert with _ | _ | _ <;> simp [insertOrFail]
  -- What remains are the turns that insert: `none` is that of an insertion without end.
  all_goals
    generalize Option.map Prod.snd _ = inserted
    cases inserted <;> rfl

theorem liveHeaderOr_hash (parentUnknown : Bool) (s : Inner) (base : BaseBlockHeader) :
    (s.liveHeaderOr blockHash parentUnknown base).hash = blockHash base := by
  rw [liveHeaderOr]
  split <;> rfl

/-- A batch stores the hashes of its headers that are not dropped, and no others. -/
theorem Inner.HashFiled.batch (hf : s.HashFiled) {batch : List BaseBlockHeader}
    {failures : List Failures}
    (h : insertOrFailBatch blockHash reorgHeightThreshold stopsAtFailure batch failures s = some s') :
    s'.HashFiled ∧ ∀ hash, hash ∈ s'.hashToId ↔ hash ∈ s.hashToId ∨
      ∃ base ∈ storedBy stopsAtFailure batch failures, blockHash base = hash := by
  induction batch generalizing s failures with
  | nil =>
    obtain rfl := Option.some.inj h
    exact ⟨hf, fun hash => by simp [storedBy]⟩
  | cons base rest ih =>
    rw [insertOrFailBatch_cons] at h
    obtain ⟨next, hturn, hrest⟩ := Option.bind_eq_some_iff.mp h
    obtain ⟨hnext, hstored⟩ : next.HashFiled ∧ ∀ hash, hash ∈ next.hashToId ↔
        hash ∈ s.hashToId ∨ ∃ b ∈ (if (failures.headD {}).stores stopsAtFailure base then [base]
          else []), blockHash b = hash := by
      split at hturn
      · rename_i hstores
        obtain ⟨hnext, hmem⟩ := hf.insertHeader hturn
        refine ⟨hnext, fun hash => ?_⟩
        rw [if_pos hstores, hmem, liveHeaderOr_hash]
        simp [eq_comm]
      · rename_i hstores
        obtain rfl := Option.some.inj hturn
        rw [if_neg hstores]
        exact ⟨hf, fun hash => by simp⟩
    obtain ⟨hlast, hmore⟩ : s'.HashFiled ∧ ∀ hash, hash ∈ s'.hashToId ↔ hash ∈ next.hashToId ∨
        ∃ b ∈ (if (failures.headD {}).stops stopsAtFailure base then []
          else storedBy stopsAtFailure rest failures.tail), blockHash b = hash := by
      split at hrest
      · rename_i hstops
        obtain rfl := Option.some.inj hrest
        rw [if_pos hstops]
        exact ⟨hnext, fun hash => by simp⟩
      · rename_i hstops
        rw [if_neg hstops]
        exact ih hnext hrest
    refine ⟨hlast, fun hash => ?_⟩
    rw [hmore, hstored, storedBy]
    simp only [List.mem_append, or_and_right, exists_or, or_assoc]

/-! ## Runs -/

/-- Every accepted header is in storage or in the queue. -/
def Inbox.NoneLost (blockHash : BaseBlockHeader → String) (i : Inbox) : Prop :=
  ∀ base ∈ i.accepted, i.storage.Holds (blockHash base) ∨ base ∈ i.baseHeaders

/-- What the failures drop of the batch is in storage all the same, or another header of the batch is
stored with its hash. -/
def Inbox.Spares (blockHash : BaseBlockHeader → String) (i : Inbox) (stopsAtFailure : Bool)
    (failures : List Failures) : Prop :=
  ∀ base ∈ droppedBy stopsAtFailure i.baseHeaders failures, i.storage.Holds (blockHash base) ∨
    ∃ other ∈ storedBy stopsAtFailure i.baseHeaders failures, blockHash other = blockHash base

/-- A call whose failures drop nothing that is not stored otherwise. -/
def Inbox.KeepsBatch (blockHash : BaseBlockHeader → String) (i : Inbox) : InboxCall → Prop
  | .addHeader _ => True
  | .processPendingHeaders failures => i.Spares blockHash true failures
  | .backgroundPass failures => i.Spares blockHash false failures

instance (i : Inbox) (call : InboxCall) : Decidable (i.KeepsBatch blockHash call) :=
  match call with
  | .addHeader _ => isTrue trivial
  | .processPendingHeaders failures => inferInstanceAs (Decidable (∀ base ∈ droppedBy true
      i.baseHeaders failures, i.storage.Holds (blockHash base) ∨
        ∃ other ∈ storedBy true i.baseHeaders failures, blockHash other = blockHash base))
  | .backgroundPass failures => inferInstanceAs (Decidable (∀ base ∈ droppedBy false
      i.baseHeaders failures, i.storage.Holds (blockHash base) ∨
        ∃ other ∈ storedBy false i.baseHeaders failures, blockHash other = blockHash base))

/-- What every call keeps. -/
structure Inbox.Tracked (i : Inbox) : Prop where
  filed : i.storage.HashFiled
  queued : ∀ base ∈ i.baseHeaders, base ∈ i.accepted

/-- The queue is emptied and a batch is processed. -/
theorem Inbox.Tracked.drain {i : Inbox} (ht : i.Tracked) {failures : List Failures} {storage : Inner}
    (h : insertOrFailBatch blockHash reorgHeightThreshold stopsAtFailure i.baseHeaders failures
      i.storage = some storage) :
    ({ i with storage, baseHeaders := [] } : Inbox).Tracked ∧ (i.NoneLost blockHash →
      (({ i with storage, baseHeaders := [] } : Inbox).NoneLost blockHash ↔
        i.Spares blockHash stopsAtFailure failures)) := by
  obtain ⟨hfiled, hstored⟩ := ht.filed.batch h
  refine ⟨⟨hfiled, List.forall_mem_nil _⟩, fun hkept => ⟨fun hafter base hdropped => ?_, ?_⟩⟩
  · have haccepted := ht.queued base ((mem_batch_iff _ _).mpr (.inr hdropped))
    have hheld := (hafter base haccepted).resolve_right (by simp)
    rw [hfiled.holds_iff, hstored] at hheld
    rwa [ht.filed.holds_iff]
  · intro hspares base haccepted
    refine .inl (hfiled.holds_iff.mpr ((hstored _).mpr ?_))
    rcases hkept base haccepted with hheld | hqueued
    · exact .inl (ht.filed.holds_iff.mp hheld)
    · rcases (mem_batch_iff i.baseHeaders failures).mp hqueued with hstores | hdropped
      · exact .inr ⟨base, hstores, rfl⟩
      · rw [← ht.filed.holds_iff]
        exact hspares base hdropped

theorem Inbox.Tracked.next {i : Inbox} (ht : i.Tracked) {call : InboxCall}
    (hin : (inbox blockHash reorgHeightThreshold).Enabled i call) :
    ((inbox blockHash reorgHeightThreshold).next call i).Tracked ∧ (i.NoneLost blockHash →
      (((inbox blockHash reorgHeightThreshold).next call i).NoneLost blockHash ↔
        i.KeepsBatch blockHash call)) := by
  obtain ⟨i', hresult⟩ := Option.isSome_iff_exists.mp hin
  have hnext : (inbox blockHash reorgHeightThreshold).next call i = i' := by
    show (call.result blockHash reorgHeightThreshold i).getD i = i'
    rw [hresult, Option.getD_some]
  rw [hnext]
  cases call with
  | addHeader header =>
    obtain rfl := Option.some.inj hresult
    refine ⟨⟨ht.filed, fun base hbase => ?_⟩, fun hkept => iff_of_true (fun base hbase => ?_) trivial⟩
    · exact (List.mem_append.mp hbase).elim
        (fun hqueued => List.mem_append_left _ (ht.queued base hqueued))
        (fun hnew => List.mem_append_right _ hnew)
    · rcases List.mem_append.mp hbase with hold | hnew
      · exact (hkept base hold).imp_right fun hqueued => List.mem_append_left _ hqueued
      · exact .inr (List.mem_append_right _ hnew)
  | processPendingHeaders failures =>
    obtain ⟨storage, hbatch, rfl⟩ := Option.map_eq_some_iff.mp hresult
    exact ht.drain hbatch
  | backgroundPass failures =>
    obtain ⟨storage, hbatch, rfl⟩ := Option.map_eq_some_iff.mp hresult
    exact ht.drain hbatch

theorem Inbox.tracked_init : ({} : Inbox).Tracked ∧ ({} : Inbox).NoneLost blockHash :=
  ⟨⟨hashFiled_empty, List.forall_mem_nil _⟩, List.forall_mem_nil _⟩

/-- In a run whose failures drop nothing that is not stored otherwise, every accepted header is in
storage or in the queue, and it is so after the next call exactly when its failures do the same. -/
theorem none_lost {i : Inbox}
    (h : (inbox blockHash reorgHeightThreshold).Reaches (Inbox.KeepsBatch blockHash) i) :
    i.NoneLost blockHash ∧ ∀ call, (inbox blockHash reorgHeightThreshold).Enabled i call →
      (((inbox blockHash reorgHeightThreshold).next call i).NoneLost blockHash ↔
        i.KeepsBatch blockHash call) := by
  have hinv : i.Tracked ∧ i.NoneLost blockHash := by
    refine h.inv (I := fun i => i.Tracked ∧ i.NoneLost blockHash) Inbox.tracked_init ?_
    intro i call hi hin hkeeps
    obtain ⟨ht, hiff⟩ := hi.1.next hin
    exact ⟨ht, (hiff hi.2).mpr hkeeps⟩
  exact ⟨hinv.2, fun call hin => (hinv.1.next hin).2 hinv.2⟩

/-- A pass of the background task stores a header whose parent it could not look up. -/
theorem none_lost_chain :
    ∃ i : Inbox, i.accepted = [genesisBlock, blockOne] ∧ i.baseHeaders = [] ∧
      i.NoneLost knownHash ∧ ∀ call, (inbox knownHash 1).Enabled i call →
        (((inbox knownHash 1).next call i).NoneLost knownHash ↔ i.KeepsBatch knownHash call) := by
  obtain ⟨i, hreach, haccepted, hqueue⟩ : ∃ i,
      (inbox knownHash 1).Reaches (Inbox.KeepsBatch knownHash) i ∧
      i.accepted = [genesisBlock, blockOne] ∧ i.baseHeaders = [] :=
    ⟨(inbox knownHash 1).after {} [.addHeader genesisBlock, .processPendingHeaders [],
        .addHeader blockOne, .backgroundPass [{ lookup := true }]],
      System.Reaches.after .init (by decide +kernel), by decide +kernel, by decide +kernel⟩
  exact ⟨i, haccepted, hqueue, none_lost hreach⟩

/-- The insertion of the first header fails, and `process_pending_headers` returns with the second one
dropped too. -/
theorem headers_lost :
    ¬∀ blockHash reorgHeightThreshold i,
      (inbox blockHash reorgHeightThreshold).Reaches (fun _ _ => True) i → i.NoneLost blockHash := by
  intro h
  obtain ⟨i, hreach, haccepted, hheld, hqueued⟩ : ∃ i,
      (inbox knownHash 1).Reaches (fun _ _ => True) i ∧ blockOne ∈ i.accepted ∧
      ¬i.storage.Holds (knownHash blockOne) ∧ blockOne ∉ i.baseHeaders :=
    ⟨(inbox knownHash 1).after {} [.addHeader genesisBlock, .addHeader blockOne,
        .processPendingHeaders [{ insert := some .before }]],
      System.Reaches.after .init (by decide +kernel), by decide +kernel, by decide +kernel,
      by decide +kernel⟩
  exact (h knownHash 1 i hreach blockOne haccepted).elim hheld hqueued

end WalletToolbox.Chaintracks
