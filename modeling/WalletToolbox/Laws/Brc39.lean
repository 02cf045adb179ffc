import WalletToolbox.Laws.Validate
import WalletToolbox.Portable.Brc39

/-! # An encrypted file gives back its document

The header that is read is the header that was written, and no other bytes are read as one.
So a file decrypts to the document that was encrypted, whatever its password's spelling, and a
hostile file costs no more than the ceilings allow before its tag is checked. -/

namespace WalletToolbox.Portable

open WalletToolbox.Lib
open WalletToolbox.Storage (Bytes)

/-! ## Steps that read bytes -/

section Steps

variable {α β : Type} {bytes : Bytes}

theorem slice_ok {out : Bytes} {i j : Nat} :
    slice bytes i j = .ok out ↔ (i ≤ j ∧ j ≤ bytes.length) ∧ (bytes.drop i).take (j - i) = out := by
  unfold slice
  split <;> simp_all

theorem byteAt_ok {i : Nat} {b : UInt8} : byteAt bytes i = .ok b ↔ bytes[i]? = some b := by
  unfold byteAt
  split <;> simp_all

theorem orError_ok {p : Except WalletError α} {a : α} : orError p = .ok a ↔ p = .ok a := by
  cases p <;> simp [orError, Except.mapError]

theorem stop_ok_iff {c : Prop} [Decidable c] {e : Stop} {q : Except Stop α} {a : α} :
    (if c then (do throw e; q) else q) = .ok a ↔ ¬c ∧ q = .ok a := by
  split
  · rename_i hc
    exact iff_of_false nofun fun h => h.1 hc
  · rename_i hc
    exact (and_iff_right hc).symm

/-- The call does not stop the program. -/
def Safe (p : Except Stop α) : Prop := p ≠ .error .panic

theorem Safe.bind {p : Except Stop α} {f : α → Except Stop β} (hp : Safe p)
    (hf : ∀ a, p = .ok a → Safe (f a)) : Safe (p >>= f) := by
  cases p with
  | error e => exact fun h => hp (congrArg Except.error (Except.error.inj h))
  | ok a => exact hf a rfl

theorem safe_refuse {c : Prop} [Decidable c] {e : WalletError} {q : Except Stop α}
    (hq : ¬c → Safe q) : Safe (if c then (do throw (.error e); q) else q) := by
  split
  · exact nofun
  · exact hq ‹_›

theorem safe_slice {i j : Nat} (hij : i ≤ j) (hj : j ≤ bytes.length) : Safe (slice bytes i j) := by
  rw [slice, if_pos ⟨hij, hj⟩]
  exact nofun

theorem safe_byteAt {i : Nat} (hi : i < bytes.length) : Safe (byteAt bytes i) := by
  rw [byteAt, List.getElem?_eq_getElem hi]
  exact nofun

theorem safe_orError {p : Except WalletError α} : Safe (orError p) := by
  cases p <;> exact nofun

theorem drop_of_slice {i n : Nat} {out : Bytes} (h : (bytes.drop i).take n = out) :
    bytes.drop i = out ++ bytes.drop (i + n) := by
  rw [← h, ← List.drop_drop, List.take_append_drop]

theorem drop_of_byte {i : Nat} {b : UInt8} (h : bytes[i]? = some b) :
    bytes.drop i = b :: bytes.drop (i + 1) := by
  obtain ⟨hi, rfl⟩ := List.getElem?_eq_some_iff.mp h
  exact List.drop_eq_getElem_cons hi

end Steps

/-! ## The header -/

theorem fromBeBytes_toBeBytes (n : UInt32) : fromBeBytes (toBeBytes n) = n := by
  have hdigits : ((BigEndian.digits 256 4 n.toNat).map UInt8.ofNat).map UInt8.toNat =
      BigEndian.digits 256 4 n.toNat := by
    rw [List.map_map]
    refine (List.map_congr_left fun d hd => ?_).trans (List.map_id _)
    have hlt := BigEndian.below_digits (by decide : 0 < 256) 4 n.toNat d hd
    rw [Function.comp, UInt8.toNat_ofNat', Nat.mod_eq_of_lt hlt, id]
  have hlt : n.toNat < 256 ^ 4 := n.toNat_lt.trans_eq (by decide)
  rw [fromBeBytes, toBeBytes, hdigits, BigEndian.value_digits_of_lt hlt, UInt32.ofNat_toNat]

theorem toBeBytes_fromBeBytes {bytes : Bytes} (h : bytes.length = 4) :
    toBeBytes (fromBeBytes bytes) = bytes := by
  have hbelow : BigEndian.Below 256 (bytes.map UInt8.toNat) := by
    intro d hd
    obtain ⟨b, -, rfl⟩ := List.mem_map.mp hd
    exact b.toNat_lt
  have hlt := BigEndian.value_lt hbelow
  rw [List.length_map, h, show (256 : Nat) ^ 4 = 2 ^ 32 by decide] at hlt
  have hdigits := BigEndian.digits_value hbelow
  rw [List.length_map, h] at hdigits
  rw [toBeBytes, fromBeBytes, UInt32.toNat_ofNat', Nat.mod_eq_of_lt hlt, hdigits, List.map_map]
  refine (List.map_congr_left fun b _ => ?_).trans (List.map_id _)
  exact UInt8.ofNat_toNat

/-- The 33 bytes that name the parameters. -/
def headerBytes (h : Brc39Header) : Bytes :=
  brc39Magic ++ [1, 1, 38, 1, 0, UInt8.ofNat h.saltLength, UInt8.ofNat h.nonceLength] ++
    toBeBytes h.iterations ++ toBeBytes h.memoryKib ++ [h.parallelism, 32] ++ List.replicate 12 0

theorem refuse_end_iff {c : Prop} [Decidable c] {e : WalletError} :
    (if c then throw e else pure () : Except WalletError Unit) = .ok () ↔ ¬c := by
  split
  · rename_i hc
    exact iff_of_false nofun fun h => h hc
  · rename_i hc
    exact iff_of_true rfl hc

/-- The costs that are let through. -/
structure Affordable (iterations memoryKib : UInt32) (parallelism : UInt8) : Prop where
  iterations : 0 < iterations.toNat ∧ iterations.toNat ≤ 4096
  memoryKib : 0 < memoryKib.toNat ∧ memoryKib.toNat ≤ 4194304
  parallelism : 0 < parallelism.toNat

theorem validateKdfParams_ok {iterations memoryKib : UInt32} {parallelism hashLength : UInt8} :
    validateKdfParams iterations memoryKib parallelism hashLength = .ok () ↔
      Affordable iterations memoryKib parallelism ∧ hashLength = 32 := by
  have hzero : ∀ n : UInt32, n = 0 ↔ n.toNat = 0 := fun n => UInt32.toNat_inj.symm
  have hpar : parallelism = 0 ↔ parallelism.toNat = 0 := UInt8.toNat_inj.symm
  have hhash : hashLength = 32 ↔ hashLength.toNat = brc39HashLength := UInt8.toNat_inj.symm
  unfold validateKdfParams
  simp only [refuse_ok_iff, refuse_end_iff, hzero, hpar, hhash, gt_iff_lt, UInt32.lt_iff_toNat_lt,
    ne_eq, not_not]
  have hmemory : brc39MaxKdfMemoryKib.toNat = 4194304 := by decide
  have hiterations : brc39MaxKdfIterations.toNat = 4096 := by decide
  rw [hmemory, hiterations]
  constructor
  · rintro ⟨hiter, hmem, hmemMax, hiterMax, hparallel, hlength⟩
    exact ⟨⟨⟨by omega, by omega⟩, ⟨by omega, by omega⟩, by omega⟩, hlength⟩
  · rintro ⟨⟨hiter, hmem, hparallel⟩, hlength⟩
    exact ⟨by omega, by omega, by omega, by omega, by omega, hlength⟩

/-- The parameters of a header that fit in their fields and are let through. -/
structure Fits (h : Brc39Header) : Prop where
  salt : 0 < h.saltLength ∧ h.saltLength < 256
  nonce : 0 < h.nonceLength ∧ h.nonceLength < 256
  cost : Affordable h.iterations h.memoryKib h.parallelism

/-- The bytes that are read as a header are those written for it, and room for the rest. -/
theorem parseBrc39Header_ok {file : Bytes} {h : Brc39Header} :
    parseBrc39Header file = .ok h ↔
      ∃ rest, file = headerBytes h ++ rest ∧ 18 ≤ rest.length ∧ Fits h := by
  unfold parseBrc39Header
  simp only [stop_ok_iff, bind_ok_iff, slice_ok, byteAt_ok, orError_ok, validateKdfParams_ok,
    Unique.exists_iff, PUnit.default_eq_unit, ne_eq, not_not]
  constructor
  · rintro ⟨hlength, _, ⟨-, h0⟩, rfl, _, h4, rfl, _, h5, rfl, _, h6, rfl, _, h7, rfl, _, h8, rfl, zeros,
      ⟨-, h21⟩, hzeros, salt, h9, nonce, h10, hsalt, hnonce, iterations, ⟨-, h11⟩, memory, ⟨-, h15⟩,
      parallelism, h19, hash, h20, ⟨hcost, rfl⟩, hheader⟩
    cases hheader
    have hlen : 33 + 16 + 2 ≤ file.length := not_lt.mp hlength
    have hiter : iterations.length = 4 := by
      rw [← h11, List.length_take, List.length_drop]
      omega
    have hmem : memory.length = 4 := by
      rw [← h15, List.length_take, List.length_drop]
      omega
    have hreserved : zeros = List.replicate 12 0 := by
      rw [List.eq_replicate_iff]
      constructor
      · rw [← h21, List.length_take, List.length_drop]
        unfold brc39HeaderLength
        omega
      · intro b hb
        by_contra hne
        exact hzeros (List.any_eq_true.mpr ⟨b, hb, bne_iff_ne.mpr hne⟩)
    refine ⟨file.drop 33, ?_, by rw [List.length_drop]; omega, ⟨?_, ?_, hcost⟩⟩
    · rw [headerBytes, UInt8.ofNat_toNat, UInt8.ofNat_toNat, toBeBytes_fromBeBytes hiter,
        toBeBytes_fromBeBytes hmem, ← hreserved]
      calc file = file.drop 0 := rfl
        _ = _ := by
          rw [drop_of_slice h0, drop_of_byte h4, drop_of_byte h5, drop_of_byte h6, drop_of_byte h7,
            drop_of_byte h8, drop_of_byte h9, drop_of_byte h10, drop_of_slice h11, drop_of_slice h15,
            drop_of_byte h19, drop_of_byte h20, drop_of_slice h21]
          simp [brc39HeaderLength]
    · exact ⟨Nat.pos_of_ne_zero hsalt, salt.toNat_lt⟩
    · exact ⟨Nat.pos_of_ne_zero hnonce, nonce.toNat_lt⟩
  · rintro ⟨rest, rfl, hrest, hfits⟩
    have hlength : (headerBytes h ++ rest).length = 33 + rest.length := by
      rw [List.length_append]
      rfl
    have hsalt : (UInt8.ofNat h.saltLength).toNat = h.saltLength := by
      rw [UInt8.toNat_ofNat', Nat.mod_eq_of_lt hfits.salt.2]
    have hnonce : (UInt8.ofNat h.nonceLength).toNat = h.nonceLength := by
      rw [UInt8.toNat_ofNat', Nat.mod_eq_of_lt hfits.nonce.2]
    refine ⟨by rw [hlength]; unfold brc39HeaderLength brc39TagLength; omega, _,
      ⟨⟨by omega, by omega⟩, rfl⟩, rfl, _, rfl, rfl, _, rfl, rfl, _, rfl, rfl, _, rfl, rfl, _, rfl, rfl,
      List.replicate 12 0, ⟨⟨by decide, by rw [hlength]; unfold brc39HeaderLength; omega⟩, rfl⟩,
      by decide, _, rfl, _, rfl, ?_, ?_, toBeBytes h.iterations, ⟨⟨by omega, by omega⟩, rfl⟩,
      toBeBytes h.memoryKib, ⟨⟨by omega, by omega⟩, rfl⟩, _, rfl, _, rfl, ?_, ?_⟩
    · rw [hsalt]
      exact hfits.salt.1.ne'
    · rw [hnonce]
      exact hfits.nonce.1.ne'
    · rw [fromBeBytes_toBeBytes, fromBeBytes_toBeBytes]
      exact ⟨hfits.cost, rfl⟩
    · rw [fromBeBytes_toBeBytes, fromBeBytes_toBeBytes, hsalt, hnonce]
      rfl

theorem parseBrc39Header_safe (file : Bytes) : Safe (parseBrc39Header file) := by
  unfold parseBrc39Header
  refine safe_refuse fun hlength => ?_
  have hlen : 33 + 16 + 2 ≤ file.length := not_lt.mp hlength
  refine (safe_slice (by omega) (by omega)).bind fun _ _ => safe_refuse fun _ => ?_
  refine (safe_byteAt (by omega)).bind fun _ _ => safe_refuse fun _ => ?_
  refine (safe_byteAt (by omega)).bind fun _ _ => safe_refuse fun _ => ?_
  refine (safe_byteAt (by omega)).bind fun _ _ => safe_refuse fun _ => ?_
  refine (safe_byteAt (by omega)).bind fun _ _ => safe_refuse fun _ => ?_
  refine (safe_byteAt (by omega)).bind fun _ _ => safe_refuse fun _ => ?_
  refine (safe_slice (by decide) (by unfold brc39HeaderLength; omega)).bind fun _ _ =>
    safe_refuse fun _ => ?_
  refine (safe_byteAt (by omega)).bind fun _ _ => (safe_byteAt (by omega)).bind fun _ _ => ?_
  refine safe_refuse fun _ => safe_refuse fun _ => ?_
  refine (safe_slice (by omega) (by omega)).bind fun _ _ => ?_
  refine (safe_slice (by omega) (by omega)).bind fun _ _ => ?_
  refine (safe_byteAt (by omega)).bind fun _ _ => (safe_byteAt (by omega)).bind fun _ _ => ?_
  exact safe_orError.bind fun _ _ => nofun

/-! ## The file -/

/-- A file with its parts: the header, the salt, the nonce, and the ciphertext with its tag. -/
structure Container (file : Bytes) (h : Brc39Header) (salt nonce body : Bytes) : Prop where
  file : file = headerBytes h ++ (salt ++ (nonce ++ body))
  salt : salt.length = h.saltLength
  nonce : nonce.length = h.nonceLength
  body : brc39TagLength < body.length
  fits : Fits h

/-- What is done once the parts are known. -/
def openPayload (chrono : Chrono) (kit : Kit) (serde : SerdeJson) (h : Brc39Header)
    (salt nonce body : Bytes) (password : String) : Except Stop (Brc38WalletData chrono) := do
  let key ← orError (deriveBrc39Key kit password salt h.iterations h.memoryKib h.parallelism)
  match kit.decrypt key nonce body with
  | .error _ => throw (.error (bad "BRC-39 authentication failed"))
  | .ok plaintext =>
    match utf8? plaintext with
    | none => throw (.error (bad "BRC-39 plaintext is not UTF-8"))
    | some json => orError (parseBrc38Json chrono serde json)

section Decrypt

variable {chrono : Chrono} {kit : Kit} {serde : SerdeJson} {file : Bytes} {h : Brc39Header}
  {salt nonce body : Bytes} {password : String}

theorem Container.decrypt (hfile : Container file h salt nonce body) :
    decryptBrc39 chrono kit serde file password =
      openPayload chrono kit serde h salt nonce body password := by
  obtain ⟨rfl, hsalt, hnonce, hbody, hfits⟩ := hfile
  unfold brc39TagLength at hbody
  have hheader : (headerBytes h).length = 33 := rfl
  have hlength : (headerBytes h ++ (salt ++ (nonce ++ body))).length =
      33 + h.saltLength + h.nonceLength + body.length := by
    rw [List.length_append, List.length_append, List.length_append, hheader, hsalt, hnonce]
    omega
  have hparse : parseBrc39Header (headerBytes h ++ (salt ++ (nonce ++ body))) = .ok h := by
    have hsaltPos := hfits.salt.1
    have hnoncePos := hfits.nonce.1
    refine parseBrc39Header_ok.mpr ⟨_, rfl, ?_, hfits⟩
    rw [List.length_append, List.length_append, hsalt, hnonce]
    omega
  have hsaltBytes : slice (headerBytes h ++ (salt ++ (nonce ++ body))) 33 (33 + h.saltLength) =
      .ok salt := by
    refine slice_ok.mpr ⟨⟨by omega, by rw [hlength]; omega⟩, ?_⟩
    rw [List.drop_left' hheader, Nat.add_sub_cancel_left, List.take_left' hsalt]
  have hnonceBytes : slice (headerBytes h ++ (salt ++ (nonce ++ body))) (33 + h.saltLength)
      (33 + h.saltLength + h.nonceLength) = .ok nonce := by
    refine slice_ok.mpr ⟨⟨by omega, by rw [hlength]; omega⟩, ?_⟩
    rw [← List.drop_drop, List.drop_left' hheader, List.drop_left' hsalt, Nat.add_sub_cancel_left,
      List.take_left' hnonce]
  have hbodyBytes : slice (headerBytes h ++ (salt ++ (nonce ++ body)))
      (33 + h.saltLength + h.nonceLength) (headerBytes h ++ (salt ++ (nonce ++ body))).length =
        .ok body := by
    refine slice_ok.mpr ⟨⟨by rw [hlength]; omega, le_rfl⟩, ?_⟩
    rw [hlength, ← List.drop_drop, ← List.drop_drop, List.drop_left' hheader, List.drop_left' hsalt,
      List.drop_left' hnonce, Nat.add_sub_cancel_left, List.take_length]
  have hlong : ¬(headerBytes h ++ (salt ++ (nonce ++ body))).length ≤
      33 + h.saltLength + h.nonceLength + 16 := by
    rw [hlength]
    omega
  unfold decryptBrc39
  rw [hparse]
  show (if _ then _ else _) = _
  unfold brc39HeaderLength brc39TagLength
  rw [if_neg hlong, hsaltBytes, hnonceBytes, hbodyBytes]
  rfl

/-- A file is refused with an error, or it has all its parts. -/
theorem decrypt_cases (chrono : Chrono) (serde : SerdeJson) (file : Bytes) (password : String) :
    (∃ e, ∀ kit : Kit, decryptBrc39 chrono kit serde file password = .error (.error e)) ∨
      ∃ h salt nonce body, Container file h salt nonce body := by
  cases hparse : parseBrc39Header file with
  | error stop =>
    cases stop with
    | panic => exact absurd hparse (parseBrc39Header_safe file)
    | error e => exact .inl ⟨e, fun kit => by rw [decryptBrc39, hparse]; rfl⟩
  | ok h =>
    obtain ⟨rest, rfl, hrest, hfits⟩ := parseBrc39Header_ok.mp hparse
    have hlength : (headerBytes h ++ rest).length = 33 + rest.length := List.length_append
    by_cases hshort : (headerBytes h ++ rest).length ≤ 33 + h.saltLength + h.nonceLength + 16
    · refine .inl ⟨bad "Invalid BRC-39 ciphertext", fun kit => ?_⟩
      unfold decryptBrc39
      rw [hparse]
      exact if_pos hshort
    · refine .inr ⟨h, rest.take h.saltLength, (rest.drop h.saltLength).take h.nonceLength,
        (rest.drop h.saltLength).drop h.nonceLength, ?_, ?_, ?_, ?_, hfits⟩
      · rw [List.take_append_drop, List.take_append_drop]
      · rw [List.length_take]
        omega
      · rw [List.length_take, List.length_drop]
        omega
      · rw [List.length_drop, List.length_drop]
        unfold brc39TagLength
        omega

/-- The kits do the same at every cost that is let through. -/
structure AgreeWithin (kit kit' : Kit) : Prop where
  nfc : kit'.nfc = kit.nfc
  decrypt : kit'.decrypt = kit.decrypt
  params : ∀ {iterations memoryKib parallelism}, Affordable iterations memoryKib parallelism →
    kit'.params memoryKib.toNat iterations.toNat parallelism.toNat =
      kit.params memoryKib.toNat iterations.toNat parallelism.toNat
  argon2id : ∀ {iterations memoryKib parallelism}, Affordable iterations memoryKib parallelism →
    kit'.argon2id memoryKib.toNat iterations.toNat parallelism.toNat =
      kit.argon2id memoryKib.toNat iterations.toNat parallelism.toNat

/-- Whatever the bytes are, no index is out of range, and nothing is computed at a cost above the
ceilings: kits that differ there only cannot be told apart. -/
theorem decryptBrc39_bounded {kit' : Kit} (hkits : AgreeWithin kit kit') (file : Bytes)
    (password : String) :
    decryptBrc39 chrono kit serde file password ≠ .error .panic ∧
      decryptBrc39 chrono kit' serde file password = decryptBrc39 chrono kit serde file password := by
  rcases decrypt_cases chrono serde file password with ⟨e, he⟩ | ⟨h, salt, nonce, body, hfile⟩
  · rw [he, he]
    exact ⟨nofun, rfl⟩
  · rw [hfile.decrypt, hfile.decrypt]
    constructor
    · refine Safe.bind safe_orError fun key _ => ?_
      split
      · exact nofun
      · split
        · exact nofun
        · exact safe_orError
    · have hkey : deriveBrc39Key kit' password salt h.iterations h.memoryKib h.parallelism =
          deriveBrc39Key kit password salt h.iterations h.memoryKib h.parallelism := by
        unfold deriveBrc39Key
        rw [hkits.nfc, hkits.params hfile.fits.cost, hkits.argon2id hfile.fits.cost]
      unfold openPayload
      rw [hkey, hkits.decrypt]

/-! ## Round trip -/

/-- The cipher adds a tag of 16 bytes, and what it encrypted it decrypts. -/
def Kit.Opens (kit : Kit) : Prop :=
  ∀ key nonce plaintext ciphertext, kit.encrypt key nonce plaintext = .ok ciphertext →
    kit.decrypt key nonce ciphertext = .ok plaintext ∧
      ciphertext.length = plaintext.length + brc39TagLength

theorem utf8_toUTF8 (s : String) : utf8? s.toUTF8.data.toList = some s := by
  have hbytes : (⟨s.toUTF8.data.toList.toArray⟩ : ByteArray) = s.toUTF8 := rfl
  rw [utf8?, hbytes, String.fromUTF8?]
  exact dif_pos s.isValidUTF8

theorem validateBrc38_of_ok {value : Value} (h : checkBrc38 chrono value = .ok ()) :
    validateBrc38 chrono value = .ok ⟨value, h⟩ := by
  unfold validateBrc38
  split
  · rfl
  · rename_i e he
    rw [h] at he
    cases he

/-- The parts of a file that was written. -/
theorem encryptWithParams_ok {data : Brc38WalletData chrono} {iterations memoryKib : UInt32}
    {parallelism : UInt8} :
    encryptWithParams kit serde data password salt nonce iterations memoryKib parallelism = .ok file ↔
      Affordable iterations memoryKib parallelism ∧ ∃ text key ciphertext,
        canonicalize serde.display data.value = .ok text ∧
        deriveBrc39Key kit password salt iterations memoryKib parallelism = .ok key ∧
        kit.encrypt key nonce text.toUTF8.data.toList = .ok ciphertext ∧
        file = headerBytes ⟨salt.length, nonce.length, iterations, memoryKib, parallelism⟩ ++
          (salt ++ (nonce ++ ciphertext)) := by
  have hhash : UInt8.ofNat brc39HashLength = 32 := rfl
  unfold encryptWithParams
  simp only [bind_ok_iff, validateKdfParams_ok, Unique.exists_iff, PUnit.default_eq_unit, hhash,
    and_true]
  refine and_congr_right fun _ => exists_congr fun text => ?_
  constructor
  · rintro ⟨htext, key, hkey, hfile⟩
    cases hcipher : kit.encrypt key nonce text.toUTF8.data.toList with
    | error e =>
      rw [hcipher] at hfile
      cases hfile
    | ok ciphertext =>
      rw [hcipher] at hfile
      cases hfile
      exact ⟨key, ciphertext, htext, hkey, hcipher, by simp [headerBytes, brc39HeaderLength]⟩
  · rintro ⟨key, ciphertext, htext, hkey, hcipher, rfl⟩
    refine ⟨htext, key, hkey, ?_⟩
    rw [hcipher]
    refine congrArg Except.ok ?_
    simp [headerBytes, brc39HeaderLength]

/-- A file decrypts to the document that was encrypted, one nested at most 127 deep, under any spelling
of the password with the same normal form, and the document that comes out is encrypted to the same bytes
again. -/
theorem brc39_round_trip (hkit : kit.Opens) (hserde : serde.Reads) {data : Brc38WalletData chrono}
    (hdistinct : data.value.Distinct) (hdepth : data.value.depth ≤ 127)
    (hsalt : 0 < salt.length ∧ salt.length < 256) (hnonce : 0 < nonce.length ∧ nonce.length < 256)
    {iterations memoryKib : UInt32} {parallelism : UInt8}
    (h : encryptWithParams kit serde data password salt nonce iterations memoryKib parallelism =
      .ok file) {password' : String} (hpassword : kit.nfc password' = kit.nfc password) :
    ∃ data', decryptBrc39 chrono kit serde file password' = .ok data' ∧
      Same data.value data'.value ∧
      encryptWithParams kit serde data' password' salt nonce iterations memoryKib parallelism =
        .ok file := by
  obtain ⟨hcost, text, key, ciphertext, htext, hkey, hcipher, hfile⟩ := encryptWithParams_ok.mp h
  obtain ⟨hopen, hlength⟩ := hkit key nonce _ ciphertext hcipher
  obtain ⟨v, hparsed, hv, hsame⟩ := hserde.canonical hdistinct hdepth htext
  have hchecked := (Matching.mk hsame hdistinct hv).checked data.valid
  have hkey' : deriveBrc39Key kit password' salt iterations memoryKib parallelism = .ok key := by
    rw [← hkey]
    unfold deriveBrc39Key
    rw [hpassword]
  have hsome : 0 < text.toUTF8.data.toList.length := by
    obtain ⟨hplain, hchars⟩ := canonicalize_ok.mp htext
    obtain ⟨c, rest, hhead, -⟩ := Json.Lexis.text_head (written_form hplain)
    by_contra hzero
    have hempty : text = "" := by
      refine String.utf8ByteSize_eq_zero_iff.mp ?_
      have hsize : text.toUTF8.data.toList.length = text.utf8ByteSize := rfl
      omega
    rw [← hchars, hempty] at hhead
    exact absurd hhead (by simp)
  have hcontainer : Container file ⟨salt.length, nonce.length, iterations, memoryKib, parallelism⟩
      salt nonce ciphertext :=
    ⟨hfile, rfl, rfl, by omega, ⟨hsalt, hnonce, hcost⟩⟩
  refine ⟨⟨v, hchecked⟩, ?_, hsame, encryptWithParams_ok.mpr ⟨hcost, text, key, ciphertext,
    hsame.canonicalize_eq hdistinct hv htext, hkey', hcipher, hfile⟩⟩
  rw [hcontainer.decrypt]
  unfold openPayload
  rw [hkey']
  show (match kit.decrypt key nonce ciphertext with | .error _ => _ | .ok plaintext => _) = _
  rw [hopen]
  dsimp only
  rw [utf8_toUTF8]
  dsimp only
  rw [parseBrc38Json, hparsed]
  dsimp only
  rw [validateBrc38_of_ok hchecked]
  rfl

end Decrypt

/-! ## A file -/

/-- A document of one transaction with its output. -/
def smallWallet : Value :=
  .object [("brc", .number (.integer 38 (by decide))), ("title", .string brc38Title),
    ("formatVersion", .number (.integer 1 (by decide))),
    ("exportedAt", .string "2024-01-02T03:04:05.678Z"), ("sourceStorage", .object []),
    ("user", .object [("userId", .number (.integer 1 (by decide)))]),
    ("tables", .object (tableKinds.map fun t => (t.2, .array (
      if t.2 = "transactions" then
        [.object [("userId", .number (.integer 1 (by decide))),
          ("transactionId", .number (.integer 7 (by decide)))]]
      else if t.2 = "outputs" then
        [.object [("userId", .number (.integer 1 (by decide))),
          ("outputId", .number (.integer 3 (by decide))),
          ("transactionId", .number (.integer 7 (by decide)))]]
      else []))))]

def printedChrono : Chrono := ⟨some⟩

theorem smallWallet_checked : checkBrc38 printedChrono smallWallet = .ok () :=
  toOption_eq_some.mp (by decide +kernel)

theorem smallWallet_distinct : smallWallet.Distinct := by
  simp [smallWallet, tableKinds, Json.Distinct, Json.All, Json.AllItems, Json.AllFields]

/-- A cipher that hides nothing, with a derivation that answers at every cost. -/
def openKit : Kit where
  nfc s := if s = "Cafe\u0301" then "Caf\u00e9" else s
  params _ _ _ := .ok ()
  argon2id _ _ _ _ _ := .ok (List.replicate 32 0)
  encrypt _ _ plaintext := .ok (plaintext ++ List.replicate 16 0)
  decrypt _ _ ciphertextAndTag := .ok (ciphertextAndTag.take (ciphertextAndTag.length - 16))

theorem openKit_opens : openKit.Opens := by
  rintro key nonce plaintext _ ⟨⟩
  refine ⟨congrArg Except.ok ?_, by rw [List.length_append, List.length_replicate]; rfl⟩
  rw [List.length_append, List.length_replicate, Nat.add_sub_cancel, List.take_left]

def smallFile : Bytes :=
  (encryptWithParams openKit plainSerde ⟨smallWallet, smallWallet_checked⟩ "Caf\u00e9" [7, 7] [9] 1 64
    1).toOption.getD []

theorem smallFile_written :
    encryptWithParams openKit plainSerde ⟨smallWallet, smallWallet_checked⟩ "Caf\u00e9" [7, 7] [9] 1 64
      1 = .ok smallFile := by
  obtain ⟨file, hfile⟩ := isOk_iff_exists.mp (by decide +kernel : (encryptWithParams openKit plainSerde
    ⟨smallWallet, smallWallet_checked⟩ "Caf\u00e9" [7, 7] [9] 1 64 1).isOk = true)
  rw [smallFile, hfile]
  rfl

theorem brc39_round_trip_decomposed :
    ∃ data, decryptBrc39 printedChrono openKit plainSerde smallFile "Cafe\u0301" = .ok data ∧
      Same smallWallet data.value := by
  obtain ⟨data, hdata, hsame, -⟩ := brc39_round_trip openKit_opens plainSerde_reads
    smallWallet_distinct (by decide) (by decide) (by decide) smallFile_written
    (show openKit.nfc "Cafe\u0301" = openKit.nfc "Caf\u00e9" by decide)
  exact ⟨data, hdata, hsame⟩

/-- The same cipher, with a derivation that gives up above the ceilings. -/
def thriftyKit : Kit :=
  { openKit with
    argon2id := fun memoryKib iterations _ _ _ =>
      if memoryKib ≤ 4194304 ∧ iterations ≤ 4096 then .ok (List.replicate 32 0)
      else .error "out of memory" }

theorem decryptBrc39_bounded_thrifty :
    decryptBrc39 printedChrono thriftyKit plainSerde smallFile "Caf\u00e9" =
      decryptBrc39 printedChrono openKit plainSerde smallFile "Caf\u00e9" := by
  have hagree : AgreeWithin openKit thriftyKit :=
    ⟨rfl, rfl, fun _ => rfl, fun h => by
      simp only [thriftyKit, openKit, h.memoryKib.2, h.iterations.2, and_self, if_true]⟩
  exact (decryptBrc39_bounded hagree smallFile "Caf\u00e9").2

end WalletToolbox.Portable
