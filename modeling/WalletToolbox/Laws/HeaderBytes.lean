import WalletToolbox.Chaintracks.HeaderBytes
import WalletToolbox.Laws.BuildSignable

/-! # Header files

The reader of BulkWocIngestor gives every header back as its 80 bytes.
That of BulkCdnIngestor leaves the hash fields in the order of the file, and agrees with it when
they read the same in both directions. -/

namespace WalletToolbox.Chaintracks

open WalletToolbox.Lib
open WalletToolbox.Storage (Bytes bytesToHex hexValue hexDigit)

variable {sha256 : Bytes → Bytes} {data bytes : Bytes}

/-! ## Fields -/

theorem u32ToLeBytes_fromLeBytes (hlength : bytes.length = 4) :
    u32ToLeBytes (u32FromLeBytes bytes) = bytes := by
  have hbelow : BigEndian.Below 256 (bytes.reverse.map UInt8.toNat) := by
    intro d hd
    obtain ⟨b, -, rfl⟩ := List.mem_map.mp hd
    exact b.toNat_lt
  have hwidth : (bytes.reverse.map UInt8.toNat).length = 4 := by simpa using hlength
  rw [u32ToLeBytes, u32FromLeBytes, ← hwidth, BigEndian.digits_value hbelow, List.map_map]
  simp [Function.comp_def]

theorem hexDecode_hex (bytes : Bytes) : hexDecode (bytesToHex bytes).toList = some bytes := by
  rw [bytesToHex, String.toList_ofList]
  induction bytes with
  | nil => rfl
  | cons b rest ih =>
    have hlt := b.toNat_lt
    rw [List.flatMap_cons, List.cons_append, List.cons_append, List.nil_append, hexDecode, ih,
      Signer.hexValue_hexDigit (by omega), Signer.hexValue_hexDigit (by omega)]
    simp only [Option.map_some, Nat.div_add_mod, UInt8.ofNat_toNat]

theorem bytesToHex_injective : Function.Injective bytesToHex := by
  intro a b h
  have hchars := congrArg (fun s => hexDecode s.toList) h
  simpa only [hexDecode_hex, Option.some.injEq] using hchars

theorem displayHexToInternal_hex (hlength : bytes.length = 32) :
    displayHexToInternal (bytesToHex bytes.reverse) = bytes := by
  have hreverse : bytes.reverse.length = 32 := by rw [List.length_reverse, hlength]
  simp only [displayHexToInternal, hexDecode_hex, Option.getD_some, hreverse, Nat.sub_self,
    List.replicate_zero, List.append_nil]
  rw [List.take_of_length_le hreverse.le, List.reverse_reverse]

theorem length_slice {start stop : Nat} (h : stop ≤ data.length) (hle : start ≤ stop) :
    (slice data start stop).length = stop - start := by
  rw [slice, List.length_take, List.length_drop]
  omega

/-- Two slices that meet. -/
theorem slice_append {start mid stop : Nat} (hle : start ≤ mid) (hle' : mid ≤ stop) :
    slice data start mid ++ slice data mid stop = slice data start stop := by
  rw [slice, slice, slice, show stop - start = (mid - start) + (stop - mid) by omega, List.take_add,
    List.drop_drop, show start + (mid - start) = mid by omega]

theorem slice_all (hlength : data.length = 80) : slice data 0 80 = data := by
  rw [slice, List.drop_zero, List.take_of_length_le (by omega)]

/-- The fields of a header make up its bytes. -/
theorem fields_append (hlength : data.length = 80) :
    slice data 0 4 ++ slice data 4 36 ++ slice data 36 68 ++ slice data 68 72 ++ slice data 72 76 ++
      slice data 76 80 = data := by
  rw [slice_append (by decide) (by decide), slice_append (by decide) (by decide),
    slice_append (by decide) (by decide), slice_append (by decide) (by decide),
    slice_append (by decide) (by decide), slice_all hlength]

/-- What BulkWocIngestor reads is written as it was. -/
theorem toBytes_woc (hlength : data.length = 80) (height : Nat) :
    (BulkWocIngestor.deserializeHeader sha256 data height).base.toBytes = data := by
  rw [BulkWocIngestor.deserializeHeader, BlockHeader.base, BaseBlockHeader.toBytes]
  dsimp only
  rw [u32ToLeBytes_fromLeBytes (length_slice (by omega) (by decide)),
    u32ToLeBytes_fromLeBytes (length_slice (by omega) (by decide)),
    u32ToLeBytes_fromLeBytes (length_slice (by omega) (by decide)),
    u32ToLeBytes_fromLeBytes (length_slice (by omega) (by decide)),
    displayHexToInternal_hex (length_slice (by omega) (by decide)),
    displayHexToInternal_hex (length_slice (by omega) (by decide)), fields_append hlength]

/-! ## Files -/

theorem length_page {n i : Nat} (h : i < data.length / n) : (page n data i).length = n := by
  have hle : (i + 1) * n ≤ data.length :=
    Nat.le_trans (Nat.mul_le_mul_right _ h) (Nat.div_mul_le_self _ _)
  rw [page, List.length_take, List.length_drop]
  rw [Nat.succ_mul] at hle
  omega

/-- One header for each complete block. -/
theorem parseHeadersWith_eq (deserialize : Bytes → Nat → BlockHeader) (data : Bytes)
    (startHeight : Nat) :
    parseHeadersWith deserialize data startHeight =
      (List.range (data.length / 80)).map fun i =>
        deserialize (page 80 data i) ((startHeight + i) % 2 ^ 32) := by
  rw [parseHeadersWith, takeWhile_chunks (by decide)]
  refine List.ext_getElem (by simp) fun i h _ => ?_
  simp only [List.getElem_mapIdx, List.getElem_map, List.getElem_range]

/-- A header of a parsed file. -/
theorem mem_parsed {deserialize : Bytes → Nat → BlockHeader} {startHeight i : Nat} {h : BlockHeader}
    (hfits : startHeight + data.length / 80 ≤ 2 ^ 32)
    (hi : (parseHeadersWith deserialize data startHeight)[i]? = some h) :
    i < data.length / 80 ∧ h = deserialize (page 80 data i) (startHeight + i) := by
  rw [parseHeadersWith_eq, List.getElem?_map, Option.map_eq_some_iff] at hi
  obtain ⟨j, hj, rfl⟩ := hi
  obtain ⟨hlt, rfl⟩ := List.getElem?_eq_some_iff.mp hj
  rw [List.length_range] at hlt
  rw [List.getElem_range] at *
  exact ⟨hlt, by rw [Nat.mod_eq_of_lt (by omega)]⟩

/-- A file whose blocks name the ones before them. -/
def BlocksLinked (sha256 : Bytes → Bytes) (data : Bytes) : Prop :=
  ∀ i, i + 1 < data.length / 80 → slice (page 80 data (i + 1)) 4 36 = sha256 (sha256 (page 80 data i))

/-- The headers of a file: one for each complete block, in order, with its bytes and its hash, and
linked when the blocks are. -/
structure ReadAsWritten (sha256 : Bytes → Bytes) (data : Bytes) (startHeight : Nat)
    (headers : List BlockHeader) : Prop where
  length : headers.length = data.length / 80
  height : ∀ i h, headers[i]? = some h → h.height = startHeight + i
  bytes : ∀ i h, headers[i]? = some h → h.base.toBytes = page 80 data i
  hash : ∀ i h, headers[i]? = some h → h.hash = computeBlockHash sha256 (page 80 data i)
  links : BlocksLinked sha256 data → ∀ i h next, headers[i]? = some h → headers[i + 1]? = some next →
    next.previousHash = h.hash

theorem woc_readAsWritten {startHeight : Nat} (hfits : startHeight + data.length / 80 ≤ 2 ^ 32) :
    ReadAsWritten sha256 data startHeight (BulkWocIngestor.parseHeaders sha256 data startHeight) where
  length := by rw [BulkWocIngestor.parseHeaders, parseHeadersWith_eq]; simp
  height i h hi := by
    rw [(mem_parsed hfits hi).2]
    rfl
  bytes i h hi := by
    obtain ⟨hlt, rfl⟩ := mem_parsed hfits hi
    exact toBytes_woc (length_page hlt) _
  hash i h hi := by
    rw [(mem_parsed hfits hi).2]
    rfl
  links hlinked i h next hi hnext := by
    obtain ⟨-, rfl⟩ := mem_parsed hfits hi
    obtain ⟨hlt, rfl⟩ := mem_parsed hfits hnext
    rw [BulkWocIngestor.deserializeHeader, BulkWocIngestor.deserializeHeader]
    dsimp only
    rw [hlinked i hlt, computeBlockHash]

/-- The hash fields of a block read the same in both directions. -/
def ReadsBothWays (block : Bytes) : Prop :=
  (slice block 4 36).reverse = slice block 4 36 ∧ (slice block 36 68).reverse = slice block 36 68

instance (block : Bytes) : Decidable (ReadsBothWays block) := inferInstanceAs (Decidable (_ ∧ _))

/-- The readers agree on a block whose hash fields are symmetric, and on no other. -/
theorem deserialize_eq_iff {block : Bytes} {height : Nat} :
    BulkCdnIngestor.deserializeHeader sha256 block height =
      BulkWocIngestor.deserializeHeader sha256 block height ↔ ReadsBothWays block := by
  constructor
  · intro h
    exact ⟨(bytesToHex_injective (congrArg (·.previousHash) h)).symm,
      (bytesToHex_injective (congrArg (·.merkleRoot) h)).symm⟩
  · rintro ⟨hprevious, hmerkle⟩
    rw [BulkCdnIngestor.deserializeHeader, BulkWocIngestor.deserializeHeader, hprevious, hmerkle]

theorem parseHeaders_eq_iff {startHeight : Nat} :
    BulkCdnIngestor.parseHeaders sha256 data startHeight =
      BulkWocIngestor.parseHeaders sha256 data startHeight ↔
        ∀ i < data.length / 80, ReadsBothWays (page 80 data i) := by
  rw [BulkCdnIngestor.parseHeaders, BulkWocIngestor.parseHeaders, parseHeadersWith_eq,
    parseHeadersWith_eq, List.map_inj_left]
  simp only [List.mem_range, deserialize_eq_iff]

/-- Both readers read a file as it was written exactly when the hash fields of its complete blocks
read the same in both directions. -/
theorem parseHeaders_agree_iff (sha256 : Bytes → Bytes) (data : Bytes) (startHeight : Nat)
    (hfits : startHeight + data.length / 80 ≤ 2 ^ 32) :
    (BulkCdnIngestor.parseHeaders sha256 data startHeight =
        BulkWocIngestor.parseHeaders sha256 data startHeight ∧
      ReadAsWritten sha256 data startHeight (BulkCdnIngestor.parseHeaders sha256 data startHeight)) ↔
      ∀ i < data.length / 80, ReadsBothWays (page 80 data i) := by
  rw [← parseHeaders_eq_iff]
  refine ⟨And.left, fun heq => ⟨heq, ?_⟩⟩
  rw [heq]
  exact woc_readAsWritten hfits

/-- The first block of the main chain. -/
def genesisBytes : Bytes :=
  [0x01, 0, 0, 0] ++ List.replicate 32 0 ++
    [0x3b, 0xa3, 0xed, 0xfd, 0x7a, 0x7b, 0x12, 0xb2, 0x7a, 0xc7, 0x2c, 0x3e, 0x67, 0x76, 0x8f,
      0x61, 0x7f, 0xc8, 0x1b, 0xc3, 0x88, 0x8a, 0x51, 0x32, 0x3a, 0x9f, 0xb8, 0xaa, 0x4b, 0x1e,
      0x5e, 0x4a] ++
    [0x29, 0xab, 0x5f, 0x49, 0xff, 0xff, 0x00, 0x1d, 0x1d, 0xac, 0x2b, 0x7c]

/-- The first block with its hash fields in the other order. -/
def swappedBytes : Bytes :=
  slice genesisBytes 0 4 ++ (slice genesisBytes 4 36).reverse ++
    (slice genesisBytes 36 68).reverse ++ slice genesisBytes 68 80

/-- SHA-256 where the samples need it: of the first block in both orders and of a block of zeros, and
of these digests. -/
def sampleSha256 (bytes : Bytes) : Bytes :=
  let genesis := [0xaf, 0x42, 0x03, 0x1e, 0x80, 0x5f, 0xf4, 0x93, 0xa0, 0x73, 0x41, 0xe2, 0xf7, 0x4f,
    0xf5, 0x81, 0x49, 0xd2, 0x2a, 0xb9, 0xba, 0x19, 0xf6, 0x13, 0x43, 0xe2, 0xc8, 0x6c,
    0x71, 0xc5, 0xd6, 0x6d]
  let swapped := [0x17, 0x65, 0x9e, 0x9d, 0x67, 0xdb, 0x86, 0xa0, 0x7b, 0x47, 0x2b, 0x68, 0x90, 0x30,
    0xcd, 0x91, 0x25, 0x9b, 0x7f, 0xea, 0x1a, 0xb7, 0x4b, 0xf4, 0x84, 0x90, 0x8c, 0xf4,
    0xa2, 0xf6, 0xaa, 0xd5]
  let zeros := [0x5b, 0x6f, 0xb5, 0x8e, 0x61, 0xfa, 0x47, 0x59, 0x39, 0x76, 0x7d, 0x68, 0xa4, 0x46,
    0xf9, 0x7f, 0x1b, 0xff, 0x02, 0xc0, 0xe5, 0x93, 0x5a, 0x3e, 0xa8, 0xbb, 0x51, 0xe6,
    0x51, 0x57, 0x83, 0xd8]
  let digests := [(genesisBytes, genesis), (swappedBytes, swapped), (List.replicate 80 0, zeros),
    (genesis, [0x6f, 0xe2, 0x8c, 0x0a, 0xb6, 0xf1, 0xb3, 0x72, 0xc1, 0xa6, 0xa2, 0x46, 0xae, 0x63,
      0xf7, 0x4f, 0x93, 0x1e, 0x83, 0x65, 0xe1, 0x5a, 0x08, 0x9c, 0x68, 0xd6, 0x19, 0x00,
      0x00, 0x00, 0x00, 0x00]),
    (swapped, [0xf2, 0xc6, 0x3d, 0x39, 0xd0, 0x66, 0x01, 0x6f, 0xca, 0x48, 0x7f, 0x76, 0x9b, 0xe4,
      0x48, 0xfe, 0x27, 0x7c, 0x36, 0xf2, 0x06, 0xe1, 0x69, 0x46, 0x26, 0x64, 0xf9, 0x2a,
      0x2f, 0x4f, 0x55, 0xf3]),
    (zeros, [0x4b, 0xe7, 0x57, 0x0e, 0x8f, 0x70, 0xeb, 0x09, 0x36, 0x40, 0xc8, 0x46, 0x82, 0x74,
      0xba, 0x75, 0x97, 0x45, 0xa7, 0xaa, 0x2b, 0x7d, 0x25, 0xab, 0x1e, 0x04, 0x21, 0xb2,
      0x59, 0x84, 0x50, 0x14])]
  (digests.lookup bytes).getD []

example : computeBlockHash sampleSha256 genesisBytes =
    "000000000019d6689c085ae165831e934ff763ae46a2a6c172b3f1b60a8ce26f" := by
  decide +kernel

/-- A block of zeros. -/
theorem parseHeaders_agree_zeros :
    BulkCdnIngestor.parseHeaders sampleSha256 (List.replicate 80 0) 7 =
        BulkWocIngestor.parseHeaders sampleSha256 (List.replicate 80 0) 7 ∧
      ReadAsWritten sampleSha256 (List.replicate 80 0) 7
        (BulkCdnIngestor.parseHeaders sampleSha256 (List.replicate 80 0) 7) :=
  (parseHeaders_agree_iff sampleSha256 (List.replicate 80 0) 7 (by decide)).mpr (by decide +kernel)

/-- The first block has a merkle root, and the readers differ on it. -/
theorem parseHeaders_disagree :
    ¬(BulkCdnIngestor.parseHeaders sampleSha256 genesisBytes 0 =
        BulkWocIngestor.parseHeaders sampleSha256 genesisBytes 0 ∧
      ReadAsWritten sampleSha256 genesisBytes 0
        (BulkCdnIngestor.parseHeaders sampleSha256 genesisBytes 0)) :=
  fun h => absurd (parseHeaders_eq_iff.mp h.1) (by decide +kernel)

end WalletToolbox.Chaintracks
