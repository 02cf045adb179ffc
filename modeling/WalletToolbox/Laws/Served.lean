import WalletToolbox.Laws.HeaderBytes
import WalletToolbox.Laws.Migration
import WalletToolbox.Lib.Scan

/-! # Served bytes

The bytes of a range of heights against the headers that stand there.
MemoryStorage serves a header wherever its look-up by height finds it. SqliteStorage writes the
hash fields in the order of their texts, so a block has the hash of its header only when these read
the same in both directions. Both serve nothing when the end of the range is no `u32`. -/

namespace WalletToolbox.Chaintracks

open WalletToolbox.Lib
open WalletToolbox.Storage (Bytes bytesToHex)

variable {sha256 : Bytes → Bytes} {height count : Nat}

/-! ## Widths -/

theorem length_u32ToLeBytes (n : Nat) : (u32ToLeBytes n).length = 4 := by
  rw [u32ToLeBytes, List.length_reverse, List.length_map, BigEndian.length_digits]

theorem length_displayHexToInternal (hex : String) : (displayHexToInternal hex).length = 32 := by
  rw [displayHexToInternal, List.length_reverse, List.length_append, List.length_take,
    List.length_replicate]
  omega

theorem length_fieldBytes (hex : String) : (fieldBytes hex).length = 32 := by
  rw [fieldBytes]
  split
  · split
    · assumption
    · exact List.length_replicate
  · exact List.length_replicate

theorem length_toBytes (h : BaseBlockHeader) : h.toBytes.length = 80 := by
  simp only [BaseBlockHeader.toBytes, List.length_append, length_u32ToLeBytes,
    length_displayHexToInternal]

theorem length_headerFieldsToBytes (h : BaseBlockHeader) : (headerFieldsToBytes h).length = 80 := by
  simp only [headerFieldsToBytes, List.length_append, length_u32ToLeBytes, length_fieldBytes]

/-! ## Two serializers -/

/-- A text that gives the same field in both directions: the hex of 32 bytes that do, or one that
counts as zeros anyway. -/
def SameBothWays (hex : String) : Prop :=
  ∀ decoded, hexDecode hex.toList = some decoded →
    if decoded.length = 32 then decoded.reverse = decoded else ∀ b ∈ decoded.take 32, b = 0

theorem fieldBytes_eq_iff (hex : String) :
    fieldBytes hex = displayHexToInternal hex ↔ SameBothWays hex := by
  rw [fieldBytes, displayHexToInternal, SameBothWays]
  cases hexDecode hex.toList with
  | none => simp
  | some decoded =>
    simp only [Option.getD_some, Option.some.injEq, forall_eq']
    by_cases hlength : decoded.length = 32
    · rw [if_pos hlength, if_pos hlength, hlength, Nat.sub_self, List.replicate_zero,
        List.append_nil, List.take_of_length_le hlength.le]
      exact eq_comm
    · rw [if_neg hlength, if_neg hlength, ← List.reverse_inj, List.reverse_reverse,
        List.reverse_replicate, eq_comm, List.eq_replicate_iff]
      constructor
      · exact fun h b hb => h.2 b (List.mem_append_left _ hb)
      · intro hzero
        refine ⟨?_, fun b hb => ?_⟩
        · rw [List.length_append, List.length_take, List.length_replicate]
          omega
        · exact (List.mem_append.mp hb).elim (hzero b) List.eq_of_mem_replicate

theorem headerFieldsToBytes_eq_iff (h : BaseBlockHeader) :
    headerFieldsToBytes h = h.toBytes ↔
      SameBothWays h.previousHash ∧ SameBothWays h.merkleRoot := by
  rw [← fieldBytes_eq_iff, ← fieldBytes_eq_iff, headerFieldsToBytes, BaseBlockHeader.toBytes]
  constructor
  · intro heq
    have hhashes := List.append_cancel_right (List.append_cancel_right (List.append_cancel_right heq))
    obtain ⟨hprevious, hmerkle⟩ := List.append_inj hhashes (by
      simp only [List.length_append, length_fieldBytes, length_displayHexToInternal])
    exact ⟨List.append_cancel_left hprevious, hmerkle⟩
  · rintro ⟨hprevious, hmerkle⟩
    rw [hprevious, hmerkle]

/-! ## Standing headers -/

/-- A stored header with the hash of its six fields. -/
def BlockHeader.Hashed (sha256 : Bytes → Bytes) (h : BlockHeader) : Prop :=
  h.hash = computeBlockHash sha256 h.base.toBytes

/-- The header that stands at a height: an active one, or else the archived one. -/
def Inner.Stands (s : Inner) (k : Nat) (h : BlockHeader) : Prop :=
  (∃ id live, s.headers.lookup id = some live ∧ live.isActive = true ∧ live.height = k ∧
    h = live.toBlockHeader) ∨
  (¬∃ id live, s.headers.lookup id = some live ∧ live.isActive = true ∧ live.height = k) ∧
    s.bulk.lookup k = some h

/-- The header that stands at a height: the active row, of several the last one, or else the
archived row. -/
def SqliteStorage.standing (s : SqliteStorage) (k : Nat) : Option BlockHeader :=
  ((s.live.filter fun h => h.isActive && h.height = k).getLast?.map (·.toBlockHeader)).or
    (s.bulk.filter fun h => h.height = k).getLast?

/-- The rows of both tables. -/
def SqliteStorage.stored (s : SqliteStorage) : List BlockHeader :=
  s.live.map (·.toBlockHeader) ++ s.bulk

/-- The bytes are 80 for each height in range at which a header stands, in ascending order, and have
that header's hash. -/
def ServesExactly (sha256 : Bytes → Bytes) (Stands : Nat → BlockHeader → Prop) (height count : Nat)
    (bytes : Bytes) : Prop :=
  ScansExactly 80 height (height + count) (fun k => ∃ h, Stands k h)
    (fun k block => ∃ h, Stands k h ∧ computeBlockHash sha256 block = h.hash) bytes

/-- The end of a range is the sum, unless that is no `u32`: then nothing is below it. -/
theorem rangeEnd_cases (hcount : count < 2 ^ 32) :
    height + count < 2 ^ 32 ∧ rangeEnd height count = height + count ∨
      2 ^ 32 ≤ height + count ∧ rangeEnd height count ≤ height := by
  rw [rangeEnd]
  omega

theorem rangeEnd_reaches {k : Nat} (hcount : count < 2 ^ 32) (hle : height ≤ k)
    (hlt : k < height + count) : k < rangeEnd height count ↔ height + count < 2 ^ 32 := by
  rcases @rangeEnd_cases height _ hcount with ⟨hfits, heq⟩ | ⟨hover, hbelow⟩
  · exact iff_of_true (heq ▸ hlt) hfits
  · exact iff_of_false (by omega) (by omega)

/-- A backend that looks up each height of a range and writes what it finds. -/
theorem servesExactly_iff {Stands : Nat → BlockHeader → Prop} {block : Nat → Option Bytes}
    (hcount : count < 2 ^ 32) (hlength : ∀ k b, block k = some b → b.length = 80)
    (hsound : ∀ k b, block k = some b → ∃ h, Stands k h) :
    ServesExactly sha256 Stands height count
        ((List.range' height (rangeEnd height count - height)).flatMap fun k => (block k).getD []) ↔
      ∀ k, height ≤ k → k < height + count → (∃ h, Stands k h) → height + count < 2 ^ 32 ∧
        ∃ b, block k = some b ∧ ∃ h, Stands k h ∧ computeBlockHash sha256 b = h.hash := by
  have hstop : rangeEnd height count = height + count ∨ rangeEnd height count ≤ height :=
    (rangeEnd_cases hcount).imp And.right And.right
  rw [ServesExactly, scansExactly_iff (by decide) hstop hlength hsound]
  refine forall_congr' fun k => forall_congr' fun hle => forall_congr' fun hlt =>
    forall_congr' fun _ => ?_
  rw [rangeEnd_reaches hcount hle hlt]

/-! ## MemoryStorage -/

theorem Inner.getHeadersBytes_eq (s : Inner) (height count : Nat) :
    s.getHeadersBytes height count =
      (List.range' height (rangeEnd height count - height)).flatMap fun k =>
        ((s.findHeaderForHeight k).map (·.base.toBytes)).getD [] := by
  rw [getHeadersBytes]
  refine List.flatMap_congr fun k _ => ?_
  cases s.findHeaderForHeight k <;> rfl

/-- The look-up by height finds active headers, and archived ones. -/
theorem Inner.Tidy.found_cases {s : Inner} (ht : s.Tidy) {k : Nat} {found : BlockHeader}
    (hfound : s.findHeaderForHeight k = some found) :
    s.Stands k found ∨ s.bulk.lookup k = some found := by
  rw [findHeaderForHeight] at hfound
  split at hfound
  · rename_i id hid
    obtain ⟨live, hlive, hactive, hheight⟩ := ht.height hid
    rw [hlive, Option.map_some, Option.some.injEq] at hfound
    exact .inl (.inl ⟨id, live, hlive, hactive, hheight, hfound.symm⟩)
  · exact .inr hfound

theorem Inner.exists_stands {s : Inner} {k : Nat} {h : BlockHeader}
    (hbulk : s.bulk.lookup k = some h) : ∃ h, s.Stands k h := by
  by_cases hactive : ∃ id live, s.headers.lookup id = some live ∧ live.isActive = true ∧
      live.height = k
  · obtain ⟨id, live, hlive, hmark, hheight⟩ := hactive
    exact ⟨_, .inl ⟨id, live, hlive, hmark, hheight, rfl⟩⟩
  · exact ⟨h, .inr ⟨hactive, hbulk⟩⟩

/-- At every height in range at which a header stands, the end of the range is a `u32` and the
look-up by height finds a header of the same hash. -/
def Inner.LooksUp (s : Inner) (height count : Nat) : Prop :=
  ∀ k, height ≤ k → k < height + count → (∃ h, s.Stands k h) → height + count < 2 ^ 32 ∧
    ∃ found h, s.findHeaderForHeight k = some found ∧ s.Stands k h ∧ found.hash = h.hash

theorem Inner.Tidy.serves_iff {s : Inner} (ht : s.Tidy) (hcount : count < 2 ^ 32)
    (hlive : ∀ id h, s.headers.lookup id = some h → h.toBlockHeader.Hashed sha256)
    (hbulk : ∀ k h, s.bulk.lookup k = some h → h.Hashed sha256) :
    ServesExactly sha256 s.Stands height count (s.getHeadersBytes height count) ↔
      s.LooksUp height count := by
  have hhashed : ∀ k found, s.findHeaderForHeight k = some found → found.Hashed sha256 := by
    intro k found hfound
    rcases ht.found_cases hfound with (⟨id, live, hlookup, -, -, rfl⟩ | ⟨-, harchived⟩) | harchived
    · exact hlive id live hlookup
    · exact hbulk k found harchived
    · exact hbulk k found harchived
  rw [getHeadersBytes_eq, servesExactly_iff hcount, LooksUp]
  · refine forall_congr' fun k => forall_congr' fun _ => forall_congr' fun _ =>
      forall_congr' fun _ => and_congr_right fun _ => ?_
    constructor
    · rintro ⟨b, hb, h, hstands, hhash⟩
      obtain ⟨found, hfound, rfl⟩ := Option.map_eq_some_iff.mp hb
      exact ⟨found, h, hfound, hstands, (hhashed k found hfound).trans hhash⟩
    · rintro ⟨found, h, hfound, hstands, hhash⟩
      exact ⟨found.base.toBytes, by rw [hfound, Option.map_some], h, hstands,
        (hhashed k found hfound).symm.trans hhash⟩
  · intro k b hb
    obtain ⟨found, -, rfl⟩ := Option.map_eq_some_iff.mp hb
    exact length_toBytes _
  · intro k b hb
    obtain ⟨found, hfound, -⟩ := Option.map_eq_some_iff.mp hb
    rcases ht.found_cases hfound with hstands | harchived
    · exact ⟨found, hstands⟩
    · exact exists_stands harchived

/-! ## SqliteStorage -/

namespace SqliteStorage

theorem getHeadersBytes_eq (s : SqliteStorage) (height count : Nat) :
    s.getHeadersBytes height count =
      (List.range' height (rangeEnd height count - height)).flatMap fun k =>
        ((s.standing k).map (headerFieldsToBytes ·.base)).getD [] := by
  rw [getHeadersBytes]
  split
  · rename_i hzero
    rw [hzero, rangeEnd, Nat.add_zero, Nat.sub_eq_zero_of_le (Nat.mod_le _ _)]
    rfl
  · dsimp only
    generalize hmap : List.foldl _ _ _ = byHeight
    have hlookup : ∀ k, byHeight.lookup k =
        if height ≤ k ∧ k < rangeEnd height count then
          (s.standing k).map (headerFieldsToBytes ·.base) else none := by
      intro k
      rw [← hmap, lookup_foldl_insert_last, lookup_foldl_insert_last, List.filter_filter,
        List.filter_filter, AList.lookup_empty, Option.or_none]
      split
      · rename_i hrange
        have hlive : (s.live.filter fun h => decide (h.height = k) && (decide (height ≤ h.height) &&
            decide (h.height < rangeEnd height count) && h.isActive)) =
              s.live.filter fun h => h.isActive && h.height = k :=
          List.filter_congr fun h _ => by grind
        have hbulk : (s.bulk.filter fun h => decide (h.height = k) && (decide (height ≤ h.height) &&
            decide (h.height < rangeEnd height count))) = s.bulk.filter fun h => h.height = k :=
          List.filter_congr fun h _ => by grind
        rw [hlive, hbulk, standing, Option.map_or, Option.map_map]
        rfl
      · rename_i hrange
        rw [List.filter_eq_nil_iff.mpr fun h _ => by grind,
          List.filter_eq_nil_iff.mpr fun h _ => by grind]
        rfl
    have hkeys : ∀ k ∈ byHeight, height ≤ k ∧ k < rangeEnd height count := by
      intro k hk
      by_contra hrange
      rw [← AList.lookup_isSome, hlookup, if_neg hrange] at hk
      cases hk
    rw [flatMap_sorted_keys hkeys]
    refine List.flatMap_congr fun k hk => ?_
    rw [List.mem_range'_1] at hk
    rw [hlookup, if_pos ⟨hk.1, by omega⟩]

/-- In every row that stands at a height in range, both hash fields read the same in both
directions, and the end of the range is a `u32`. -/
def ReadsBothWays (s : SqliteStorage) (height count : Nat) : Prop :=
  ∀ k h, height ≤ k → k < height + count → s.standing k = some h → height + count < 2 ^ 32 ∧
    SameBothWays h.previousHash ∧ SameBothWays h.merkleRoot

theorem serves_iff {s : SqliteStorage} (hcount : count < 2 ^ 32)
    (hhashed : ∀ h ∈ s.stored, h.Hashed sha256)
    (hcollision : ∀ h ∈ s.stored, computeBlockHash sha256 (headerFieldsToBytes h.base) =
      computeBlockHash sha256 h.base.toBytes → headerFieldsToBytes h.base = h.base.toBytes) :
    ServesExactly sha256 (fun k h => s.standing k = some h) height count
      (s.getHeadersBytes height count) ↔ s.ReadsBothWays height count := by
  have hstored : ∀ k h, s.standing k = some h → h ∈ s.stored := by
    intro k h hstands
    rw [standing, Option.or_eq_some_iff] at hstands
    rcases hstands with hlive | ⟨-, hbulk⟩
    · obtain ⟨live, hlast, rfl⟩ := Option.map_eq_some_iff.mp hlive
      exact List.mem_append_left _ (List.mem_map_of_mem
        (List.mem_of_mem_filter (List.mem_of_getLast? hlast)))
    · exact List.mem_append_right _ (List.mem_of_mem_filter (List.mem_of_getLast? hbulk))
  rw [getHeadersBytes_eq, servesExactly_iff hcount, ReadsBothWays]
  · refine forall_congr' fun k => ?_
    constructor
    · intro hserved h hle hlt hstands
      obtain ⟨hfits, b, hb, h', hstands', hhash⟩ := hserved hle hlt ⟨h, hstands⟩
      obtain rfl := Option.some.inj (hstands.symm.trans hstands')
      obtain rfl := Option.some.inj ((congrArg (Option.map _) hstands).symm.trans hb)
      have hstore := hstored k h hstands
      exact ⟨hfits, (headerFieldsToBytes_eq_iff h.base).mp
        (hcollision h hstore (hhash.trans (hhashed h hstore)))⟩
    · rintro hreads hle hlt ⟨h, hstands⟩
      obtain ⟨hfits, hsame⟩ := hreads h hle hlt hstands
      refine ⟨hfits, _, by rw [hstands, Option.map_some], h, hstands, ?_⟩
      rw [(headerFieldsToBytes_eq_iff h.base).mpr hsame]
      exact (hhashed h (hstored k h hstands)).symm
  · intro k b hb
    obtain ⟨h, -, rfl⟩ := Option.map_eq_some_iff.mp hb
    exact length_headerFieldsToBytes _
  · intro k b hb
    obtain ⟨h, hstands, -⟩ := Option.map_eq_some_iff.mp hb
    exact ⟨h, hstands⟩

end SqliteStorage

/-- MemoryStorage serves the headers exactly when it looks them up, and SqliteStorage exactly when
their hash fields read the same in both directions. -/
theorem headers_served_iff {liveHeightThreshold reorgHeightThreshold : Nat} {memory : Inner}
    {sqlite : SqliteStorage} (hcount : count < 2 ^ 32)
    (hreach : (memoryCalls liveHeightThreshold reorgHeightThreshold).Reaches (fun _ _ => True) memory)
    (hlive : ∀ id h, memory.headers.lookup id = some h → h.toBlockHeader.Hashed sha256)
    (hbulk : ∀ k h, memory.bulk.lookup k = some h → h.Hashed sha256)
    (hstored : ∀ h ∈ sqlite.stored, h.Hashed sha256)
    (hcollision : ∀ h ∈ sqlite.stored, computeBlockHash sha256 (headerFieldsToBytes h.base) =
      computeBlockHash sha256 h.base.toBytes → headerFieldsToBytes h.base = h.base.toBytes) :
    (ServesExactly sha256 memory.Stands height count (memory.getHeadersBytes height count) ↔
        memory.LooksUp height count) ∧
      (ServesExactly sha256 (fun k h => sqlite.standing k = some h) height count
        (sqlite.getHeadersBytes height count) ↔ sqlite.ReadsBothWays height count) :=
  ⟨(tidy_of_reaches hreach).serves_iff hcount hlive hbulk,
    SqliteStorage.serves_iff hcount hstored hcollision⟩

/-! ## The first block -/

theorem fieldBytes_hex {bytes : Bytes} (hlength : bytes.length = 32) :
    fieldBytes (bytesToHex bytes) = bytes := by
  simp only [fieldBytes, hexDecode_hex, if_pos hlength]

theorem sameBothWays_hex {bytes : Bytes} (hlength : bytes.length = 32) :
    SameBothWays (bytesToHex bytes) ↔ bytes.reverse = bytes := by
  rw [SameBothWays, hexDecode_hex]
  simp only [Option.some.injEq, forall_eq', if_pos hlength]

/-- What SqliteStorage serves of a header that was read from its block. -/
theorem headerFieldsToBytes_woc {block : Bytes} (hlength : block.length = 80) (height : Nat) :
    headerFieldsToBytes (BulkWocIngestor.deserializeHeader sha256 block height).base =
      slice block 0 4 ++ (slice block 4 36).reverse ++ (slice block 36 68).reverse ++
        slice block 68 80 := by
  have hwidth : ∀ {start stop}, stop ≤ 80 → start ≤ stop →
      (slice block start stop).length = stop - start :=
    fun hstop hle => length_slice (hlength ▸ hstop) hle
  rw [headerFieldsToBytes, BlockHeader.base, BulkWocIngestor.deserializeHeader]
  dsimp only
  rw [u32ToLeBytes_fromLeBytes (hwidth (by decide) (by decide)),
    u32ToLeBytes_fromLeBytes (hwidth (by decide) (by decide)),
    u32ToLeBytes_fromLeBytes (hwidth (by decide) (by decide)),
    u32ToLeBytes_fromLeBytes (hwidth (by decide) (by decide)),
    fieldBytes_hex (by rw [List.length_reverse, hwidth (by decide) (by decide)]),
    fieldBytes_hex (by rw [List.length_reverse, hwidth (by decide) (by decide)]),
    List.append_assoc _ (slice block 68 72), List.append_assoc _ (slice block 68 72 ++ _),
    slice_append (by decide) (by decide), slice_append (by decide) (by decide)]

theorem hashed_woc {block : Bytes} (hlength : block.length = 80) (height : Nat) :
    (BulkWocIngestor.deserializeHeader sha256 block height).Hashed sha256 := by
  rw [BlockHeader.Hashed, toBytes_woc hlength]
  rfl

/-- The block of zeros is served by both backends, from the live window and from the archive. -/
theorem headers_served_zeros :
    ∃ (memory : Inner) (sqlite : SqliteStorage), memory.size = 1 ∧ sqlite.stored.length = 1 ∧
      ServesExactly sampleSha256 memory.Stands 5 4 (memory.getHeadersBytes 5 4) ∧
      ServesExactly sampleSha256 (fun k h => sqlite.standing k = some h) 5 4
        (sqlite.getHeadersBytes 5 4) := by
  let zeros := BulkWocIngestor.deserializeHeader sampleSha256 (List.replicate 80 0) 7
  let live : LiveBlockHeader :=
    { zeros with chainWork := 0, isChainTip := false, isActive := false, headerId := none,
                 previousHeaderId := none }
  let memory := (memoryCalls 0 2).after {} [.insertHeader live]
  have hzeros : zeros.Hashed sampleSha256 := hashed_woc (by decide) 7
  have hsame : SameBothWays zeros.base.previousHash ∧ SameBothWays zeros.base.merkleRoot :=
    ⟨(sameBothWays_hex (by decide)).mpr (by decide), (sameBothWays_hex (by decide)).mpr (by decide)⟩
  have hlive : ∀ id h, memory.headers.lookup id = some h → h.toBlockHeader = zeros := by
    intro id h hlookup
    obtain ⟨hd, hheaders, hblock⟩ : ∃ hd : LiveBlockHeader,
        memory.headers = AList.insert 1 hd ∅ ∧ hd.toBlockHeader = zeros := ⟨_, rfl, rfl⟩
    rw [hheaders] at hlookup
    by_cases hid : id = 1
    · subst hid
      rw [AList.lookup_insert] at hlookup
      obtain rfl := Option.some.inj hlookup
      exact hblock
    · rw [AList.lookup_insert_ne hid] at hlookup
      cases hlookup
  have hbulk : ∀ k h, memory.bulk.lookup k ≠ some h := fun _ _ hlookup => by cases hlookup
  obtain ⟨hmemory, hsqlite⟩ := @headers_served_iff sampleSha256 5 4 0 2 memory { bulk := [zeros] }
    (by decide) (System.Reaches.after .init (by decide +kernel))
    (fun id h hlookup => hlive id h hlookup ▸ hzeros) (fun k h hlookup => (hbulk k h hlookup).elim)
    (fun h hstored => List.mem_singleton.mp hstored ▸ hzeros)
    fun h hstored _ => List.mem_singleton.mp hstored ▸ (headerFieldsToBytes_eq_iff zeros.base).mpr hsame
  refine ⟨memory, { bulk := [zeros] }, rfl, rfl, hmemory.mpr ?_, hsqlite.mpr ?_⟩
  · rintro k - - ⟨h, ⟨id, live, hlookup, hactive, rfl, rfl⟩ | ⟨-, harchived⟩⟩
    · have hblock := hlive id live hlookup
      have hheight : live.height = 7 := congrArg BlockHeader.height hblock
      have hfound : memory.findHeaderForHeight 7 = some zeros := rfl
      rw [hheight]
      exact ⟨by decide, zeros, zeros, hfound, .inl ⟨id, live, hlookup, hactive, hheight, hblock.symm⟩, rfl⟩
    · exact (hbulk _ _ harchived).elim
  · intro k h _ _ hstands
    have hstored : h ∈ [zeros].filter fun h => h.height = k := List.mem_of_getLast? hstands
    obtain rfl := List.mem_singleton.mp (List.mem_of_mem_filter hstored)
    exact ⟨by decide, hsame⟩

/-- The first block in the archive of SqliteStorage is served with its merkle root in the wrong
order. -/
theorem headers_not_served :
    ¬∀ (sha256 : Bytes → Bytes) (sqlite : SqliteStorage) (height count : Nat),
      (∀ h ∈ sqlite.stored, h.Hashed sha256) →
        ServesExactly sha256 (fun k h => sqlite.standing k = some h) height count
          (sqlite.getHeadersBytes height count) := by
  intro h
  let genesis := BulkWocIngestor.deserializeHeader sampleSha256 genesisBytes 0
  have hhashed : ∀ h ∈ SqliteStorage.stored { bulk := [genesis] }, h.Hashed sampleSha256 := by
    intro h hstored
    obtain rfl := List.mem_singleton.mp hstored
    exact hashed_woc (by decide) 0
  have hserved := (SqliteStorage.serves_iff (by decide) hhashed ?_).mp
    (h sampleSha256 { bulk := [genesis] } 0 1 hhashed)
  · have hsame := (hserved 0 genesis (by decide) (by decide) rfl).2.2
    exact absurd ((sameBothWays_hex (by decide)).mp hsame) (by decide)
  · intro h hstored heq
    obtain rfl := List.mem_singleton.mp hstored
    rw [headerFieldsToBytes_woc (by decide), toBytes_woc (by decide)] at heq
    exact absurd (bytesToHex_injective heq) (by decide +kernel)

end WalletToolbox.Chaintracks
