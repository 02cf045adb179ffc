import WalletToolbox.AuthManager.UmpToken
import WalletToolbox.Laws.Utf8

/-! # What a UMP token gives back -/

namespace WalletToolbox.AuthManager

open WalletToolbox.Storage WalletToolbox.Permissions

/-! ## Parameters as JSON -/

/-- The text of a member of an object. -/
def memberText (m : String × UInt64) : String :=
  "\"" ++ m.1 ++ "\":" ++ toString m.2.toNat

/-- The text of an object with unsigned members, as a compact printer writes it. -/
def objectText (members : List (String × UInt64)) : String :=
  "\x7b" ++ String.intercalate "," (members.map memberText) ++ "\x7d"

/-- The parser reads back the integers that are printed in an object. -/
def ReadsObjects (fromSlice : JsonReader) : Prop :=
  ∀ members : List (String × UInt64), (members.map Prod.fst).Nodup →
    (∀ m ∈ members, ∀ c ∈ m.1.toList, c.isAlpha = true) →
    fromSlice (objectText members).toUTF8.toList = some fun name => members.lookup name

/-- The members of a params field. -/
def kdfMembers (kdf : PasswordKdf) : List (String × UInt64) :=
  ("iterations", kdf.iterations.toUInt64) ::
    (kdf.memoryKib.toList.map fun m => ("memoryKiB", m.toUInt64)) ++
    (kdf.parallelism.toList.map fun p => ("parallelism", p.toUInt64)) ++
    (kdf.hashLength.toList.map fun h => ("hashLength", h.toUInt64))

theorem buildKdfParamsJson_eq (kdf : PasswordKdf) :
    buildKdfParamsJson kdf = objectText (kdfMembers kdf) := by
  obtain ⟨algorithm, iterations, memoryKib, parallelism, hashLength⟩ := kdf
  rw [← String.toList_inj]
  cases memoryKib <;> cases parallelism <;> cases hashLength <;>
    simp [buildKdfParamsJson, objectText, memberText, kdfMembers]

theorem kdfMembers_nodup (kdf : PasswordKdf) : ((kdfMembers kdf).map Prod.fst).Nodup := by
  obtain ⟨algorithm, iterations, memoryKib, parallelism, hashLength⟩ := kdf
  cases memoryKib <;> cases parallelism <;> cases hashLength <;> simp [kdfMembers]

theorem kdfMembers_alpha (kdf : PasswordKdf) :
    ∀ m ∈ kdfMembers kdf, ∀ c ∈ m.1.toList, c.isAlpha = true := by
  have hnames : ∀ name ∈ ["iterations", "memoryKiB", "parallelism", "hashLength"],
      ∀ c ∈ name.toList, c.isAlpha = true := by
    simp
  intro m hm
  apply hnames
  simp only [kdfMembers, List.mem_append, List.mem_cons, List.mem_map] at hm
  grind

theorem readKdf_buildKdfParamsJson {fromSlice : JsonReader} (hread : ReadsObjects fromSlice)
    (kdf : PasswordKdf) :
    readKdf fromSlice kdf.algorithm.toUTF8.toList (buildKdfParamsJson kdf).toUTF8.toList =
      some kdf := by
  rw [readKdf, buildKdfParamsJson_eq, hread _ (kdfMembers_nodup kdf) (kdfMembers_alpha kdf),
    fromUtf8Lossy_toUTF8, String.ofList_toList]
  obtain ⟨algorithm, iterations, memoryKib, parallelism, hashLength⟩ := kdf
  cases memoryKib <;> cases parallelism <;> cases hashLength <;>
    simp [kdfMembers, List.lookup_cons]

/-! ## Fields -/

/-- The version is the one of the layout: 3 with KDF metadata and none without. -/
def UMPToken.Versioned (token : UMPToken) : Prop :=
  token.umpVersion = token.passwordKdf.map fun _ => umpVersionV3

theorem decodeUmpTokenFields_encode {fromSlice : JsonReader} (hread : ReadsObjects fromSlice)
    {token : UMPToken} (hprofiles : token.profilesEncrypted ≠ some [])
    (hversion : token.Versioned) :
    decodeUmpTokenFields fromSlice (encodeUmpTokenFields token) =
      .ok { token with currentOutpoint := none } := by
  obtain ⟨f₀, f₁, f₂, f₃, f₄, f₅, f₆, f₇, f₈, f₉, f₁₀, profiles, version, kdf, outpoint⟩ := token
  cases kdf with
  | none =>
    cases profiles with
    | none =>
      simp_all [UMPToken.Versioned, encodeUmpTokenFields, decodeUmpTokenFields]
    | some blob =>
      simp_all [UMPToken.Versioned, encodeUmpTokenFields, decodeUmpTokenFields]
  | some kdf =>
    have hkdf := readKdf_buildKdfParamsJson hread kdf
    cases profiles with
    | none =>
      simp_all [UMPToken.Versioned, encodeUmpTokenFields, decodeUmpTokenFields]
    | some blob =>
      simp_all [UMPToken.Versioned, encodeUmpTokenFields, decodeUmpTokenFields]

/-! ## Keys -/

/-- Decryption inverts encryption. -/
def Crypto.Inverts (crypto : Crypto) : Prop :=
  ∀ sym nonce plaintext ciphertext : Bytes,
    crypto.encrypt sym nonce plaintext = .ok ciphertext →
    crypto.decrypt sym ciphertext = .ok plaintext

theorem bind_eq_ok {ε α β : Type} {x : Except ε α} {f : α → Except ε β} {b : β}
    (h : (x >>= f) = .ok b) : ∃ a, x = .ok a ∧ f a = .ok b := by
  cases x with
  | error e => cases h
  | ok a => exact ⟨a, rfl, h⟩

theorem mapErr_eq_ok {α : Type} {text : String} {x : Except String α} {a : α}
    (h : mapErr text x = .ok a) : x = .ok a := by
  cases x with
  | error e => cases h
  | ok b => simpa only [mapErr, Except.ok.injEq] using h

/-- What a new token says about the way to its root. -/
theorem buildNewUserUmpToken_ok {crypto : Crypto} {draws : Draws}
    {presentationKey password : Bytes} {kdf : PasswordKdf} {token : UMPToken}
    (h : buildNewUserUmpToken crypto draws presentationKey password kdf = .ok token) :
    presentationKey.length = 32 ∧ token.profilesEncrypted = none ∧
    token.umpVersion = some umpVersionV3 ∧ token.passwordKdf = some kdf ∧
    token.passwordSalt = draws.passwordSalt ∧
    ∃ passwordKey sym,
      derivePasswordKey crypto draws.passwordSalt password (some kdf) = .ok passwordKey ∧
      passwordKey.length = 32 ∧
      crypto.symmetricKey (xorKeys presentationKey passwordKey) = .ok sym ∧
      crypto.encrypt sym (draws.nonces 0) draws.rootPrimaryKey =
        .ok token.passwordPresentationPrimary := by
  unfold buildNewUserUmpToken at h
  by_cases hlength : presentationKey.length ≠ 32
  · rw [if_pos hlength] at h
    cases h
  rw [if_neg hlength] at h
  obtain ⟨passwordKey, hkey, h⟩ := bind_eq_ok h
  by_cases hkeyLength : passwordKey.length ≠ 32
  · rw [if_pos hkeyLength] at h
    cases h
  rw [if_neg hkeyLength] at h
  obtain ⟨sym, hsym, h⟩ := bind_eq_ok h
  obtain ⟨_, -, h⟩ := bind_eq_ok h
  obtain ⟨_, -, h⟩ := bind_eq_ok h
  obtain ⟨_, -, h⟩ := bind_eq_ok h
  obtain ⟨_, -, h⟩ := bind_eq_ok h
  obtain ⟨primary, hprimary, h⟩ := bind_eq_ok h
  obtain ⟨_, -, h⟩ := bind_eq_ok h
  obtain ⟨_, -, h⟩ := bind_eq_ok h
  obtain ⟨_, -, h⟩ := bind_eq_ok h
  obtain ⟨_, -, h⟩ := bind_eq_ok h
  obtain ⟨_, -, h⟩ := bind_eq_ok h
  obtain ⟨_, -, h⟩ := bind_eq_ok h
  obtain ⟨_, -, h⟩ := bind_eq_ok h
  cases h
  exact ⟨not_not.mp hlength, rfl, rfl, rfl, rfl, passwordKey, sym, hkey, not_not.mp hkeyLength,
    mapErr_eq_ok hsym, mapErr_eq_ok hprimary⟩

theorem deriveRootPrimaryKey_build {crypto : Crypto} (hinverts : crypto.Inverts) {draws : Draws}
    {presentationKey password : Bytes} {kdf : PasswordKdf} {token : UMPToken}
    (h : buildNewUserUmpToken crypto draws presentationKey password kdf = .ok token) :
    deriveRootPrimaryKey crypto token presentationKey password =
      .ok draws.rootPrimaryKey := by
  obtain ⟨hlength, -, -, hkdf, hsalt, passwordKey, sym, hkey, hkeyLength, hsym, hprimary⟩ :=
    buildNewUserUmpToken_ok h
  have hdecrypt := hinverts _ _ _ _ hprimary
  simp only [deriveRootPrimaryKey, hkdf, hsalt, hkey, hlength, hkeyLength, hsym, hdecrypt, mapErr,
    bind, Except.bind, ne_eq, not_true_eq_false, if_false]

/-! ## A reader and a wallet of its own -/

/-- A member of an object whose name is of letters and whose value is of digits, and what is left
of the text. -/
def readMember : List Char → Option ((String × UInt64) × List Char)
  | '"' :: text =>
    match text.dropWhile Char.isAlpha with
    | '"' :: ':' :: value =>
      some ((String.ofList (text.takeWhile Char.isAlpha),
        UInt64.ofNat (Nat.ofDigitChars 10 (value.takeWhile Char.isDigit) 0)),
        value.dropWhile Char.isDigit)
    | _ => none
  | _ => none

/-- At most `fuel` members up to the end of the object. -/
def readMembers : Nat → List Char → Option (List (String × UInt64))
  | 0, _ => none
  | fuel + 1, text =>
    match readMember text with
    | some (m, ['\x7d']) => some [m]
    | some (m, ',' :: text) => (readMembers fuel text).map (m :: ·)
    | _ => none

/-- A JSON reader of flat objects with unsigned members. -/
def readObject : JsonReader := fun bytes =>
  match fromUtf8Lossy bytes with
  | '\x7b' :: text =>
    if text = ['\x7d'] then some fun _ => none
    else (readMembers text.length text).map fun members name => members.lookup name
  | _ => none

theorem readMember_append {m : String × UInt64} (hname : ∀ c ∈ m.1.toList, c.isAlpha = true)
    {c : Char} (hend : c.isDigit = false) (text : List Char) :
    readMember ((memberText m).toList ++ c :: text) = some (m, c :: text) := by
  obtain ⟨name, value⟩ := m
  have hdigits : ∀ d ∈ Nat.toDigits 10 value.toNat, d.isDigit = true := fun d hd =>
    Nat.isDigit_of_mem_toDigits (by decide) (by decide) hd
  have htext : (memberText (name, value)).toList ++ c :: text =
      '"' :: (name.toList ++ '"' :: ':' :: (Nat.toDigits 10 value.toNat ++ c :: text)) := by
    simp [memberText, Nat.repr_eq_ofList_toDigits]
  have hvalue : (Nat.toDigits 10 value.toNat ++ c :: text).takeWhile Char.isDigit =
      Nat.toDigits 10 value.toNat := by
    rw [List.takeWhile_append_of_pos hdigits, List.takeWhile_cons_of_neg (by simp [hend]),
      List.append_nil]
  have hrest : (Nat.toDigits 10 value.toNat ++ c :: text).dropWhile Char.isDigit = c :: text := by
    rw [List.dropWhile_append_of_pos hdigits, List.dropWhile_cons_of_neg (by simp [hend])]
  have hletters : ∀ rest, (name.toList ++ '"' :: rest).takeWhile Char.isAlpha = name.toList := by
    intro rest
    rw [List.takeWhile_append_of_pos hname, List.takeWhile_cons_of_neg (by decide),
      List.append_nil]
  have hquote : ∀ rest, (name.toList ++ '"' :: rest).dropWhile Char.isAlpha = '"' :: rest := by
    intro rest
    rw [List.dropWhile_append_of_pos hname, List.dropWhile_cons_of_neg (by decide)]
  rw [htext, readMember]
  simp only [hquote, hletters, hvalue, hrest, Nat.ofDigitChars_ten_toDigits, String.ofList_toList,
    UInt64.ofNat_toNat]

theorem readMembers_intercalate {members : List (String × UInt64)} (hne : members ≠ [])
    (hnames : ∀ m ∈ members, ∀ c ∈ m.1.toList, c.isAlpha = true) :
    ∀ fuel, (String.intercalate "," (members.map memberText)).toList.length < fuel →
      readMembers fuel ((String.intercalate "," (members.map memberText)).toList ++ ['\x7d']) =
        some members := by
  induction members with
  | nil => exact absurd rfl hne
  | cons m members ih =>
    intro fuel hfuel
    obtain ⟨fuel, rfl⟩ : ∃ n, fuel = n + 1 := ⟨fuel - 1, by omega⟩
    have hname := hnames m List.mem_cons_self
    cases members with
    | nil =>
      rw [List.map_singleton, String.intercalate_singleton, readMembers,
        readMember_append hname (by decide)]
      rfl
    | cons m₂ members =>
      rw [List.map_cons, List.map_cons, String.intercalate_cons_cons] at hfuel ⊢
      have htext : ∀ rest : String, (memberText m ++ "," ++ rest).toList ++ ['\x7d'] =
          (memberText m).toList ++ ',' :: (rest.toList ++ ['\x7d']) := by
        intro rest
        simp
      rw [htext, readMembers, readMember_append hname (by decide)]
      have hcomma : ",".toList.length = 1 := rfl
      rw [String.toList_append, String.toList_append, List.length_append, List.length_append,
        hcomma] at hfuel
      have hrest := ih (by simp) (fun k hk => hnames k (List.mem_cons_of_mem m hk)) fuel
        (by rw [List.map_cons]; omega)
      rw [List.map_cons] at hrest
      simp only [hrest, Option.map_some]

theorem readsObjects_readObject : ReadsObjects readObject := by
  intro members _ hnames
  rw [readObject, fromUtf8Lossy_toUTF8]
  have htext : (objectText members).toList =
      '\x7b' :: ((String.intercalate "," (members.map memberText)).toList ++ ['\x7d']) := by
    simp [objectText]
  rw [htext]
  cases members with
  | nil => rfl
  | cons m members =>
    have hread := readMembers_intercalate (List.cons_ne_nil m members) hnames
    have hne : (String.intercalate "," ((m :: members).map memberText)).toList ≠ [] := by
      cases members <;> simp [memberText]
    generalize (String.intercalate "," ((m :: members).map memberText)).toList = text at *
    have htail : text ++ ['\x7d'] ≠ ['\x7d'] := by simpa using hne
    simp only [if_neg htail, hread _ (by simp : text.length < (text ++ ['\x7d']).length),
      Option.map_some]

def bytes32 (b : UInt8) : Bytes := List.replicate 32 b

def samplePresentationKey : Bytes := bytes32 1

/-- The bytes of `password`. -/
def samplePassword : Bytes := [112, 97, 115, 115, 119, 111, 114, 100]

/-- A thousand rounds of PBKDF2 over the password with the salt `bytes32 2`. -/
def samplePasswordKey : Bytes :=
  [212, 60, 154, 124, 26, 66, 44, 128, 64, 139, 86, 68, 37, 161, 29, 152, 168, 162, 26, 84, 87,
   144, 146, 28, 167, 32, 6, 204, 168, 199, 109, 186]

/-- An encryption of AES-256-GCM; the ciphertext is the nonce and the body. -/
structure Sealed where
  sym : Bytes
  nonce : Bytes
  plaintext : Bytes
  body : Bytes

def sampleSealed : List Sealed :=
  [{ sym := xorKeys samplePresentationKey samplePasswordKey, nonce := bytes32 10,
      plaintext := bytes32 4, body :=
        [137, 0, 168, 246, 114, 150, 126, 162, 93, 91, 248, 35, 209, 8, 46, 128, 13, 132, 52, 136,
         186, 64, 170, 196, 169, 72, 137, 45, 10, 128, 8, 255, 73, 246, 27, 217, 165, 233, 132,
         65, 119, 93, 183, 130, 147, 220, 164, 68] },
    { sym := xorKeys (bytes32 3) samplePasswordKey, nonce := bytes32 11,
      plaintext := bytes32 4, body :=
        [114, 252, 167, 90, 88, 13, 61, 250, 101, 196, 11, 195, 232, 160, 137, 101, 209, 146, 241,
         20, 170, 63, 103, 254, 102, 148, 237, 247, 41, 184, 103, 187, 59, 28, 95, 74, 136, 11,
         89, 130, 83, 239, 200, 34, 172, 250, 92, 182] },
    { sym := xorKeys samplePresentationKey (bytes32 3), nonce := bytes32 12,
      plaintext := bytes32 4, body :=
        [255, 218, 30, 234, 64, 100, 12, 189, 72, 48, 8, 119, 205, 57, 172, 73, 189, 176, 233,
         168, 218, 228, 154, 200, 138, 84, 123, 28, 147, 199, 235, 105, 53, 15, 90, 44, 229, 37,
         154, 223, 50, 88, 210, 209, 169, 116, 88, 25] },
    { sym := xorKeys (bytes32 4) samplePasswordKey, nonce := bytes32 13,
      plaintext := bytes32 5, body :=
        [175, 68, 57, 149, 63, 4, 6, 124, 11, 156, 209, 61, 148, 7, 230, 169, 198, 152, 51, 252,
         147, 218, 31, 185, 226, 205, 61, 91, 112, 40, 191, 13, 233, 120, 9, 45, 35, 202, 189, 29,
         22, 113, 148, 160, 180, 233, 54, 29] },
    { sym := xorKeys samplePresentationKey (bytes32 3), nonce := bytes32 14,
      plaintext := bytes32 5, body :=
        [240, 64, 138, 78, 143, 102, 140, 243, 177, 244, 144, 24, 184, 131, 245, 250, 187, 133,
         57, 159, 191, 141, 128, 28, 157, 36, 8, 206, 42, 169, 39, 118, 211, 92, 216, 94, 188, 31,
         164, 197, 100, 201, 10, 181, 114, 183, 191, 180] },
    { sym := bytes32 5, nonce := bytes32 15,
      plaintext := samplePresentationKey, body :=
        [112, 94, 76, 92, 225, 22, 35, 112, 57, 112, 84, 207, 121, 7, 152, 82, 248, 176, 248, 69,
         228, 183, 218, 143, 48, 176, 30, 128, 158, 98, 83, 63, 133, 159, 107, 195, 250, 180, 253,
         109, 125, 248, 40, 41, 69, 111, 154, 138] },
    { sym := bytes32 5, nonce := bytes32 16,
      plaintext := samplePasswordKey, body :=
        [28, 134, 56, 100, 71, 165, 230, 85, 245, 175, 149, 39, 6, 70, 240, 151, 27, 109, 98, 1,
         121, 161, 16, 23, 170, 153, 123, 109, 154, 146, 106, 29, 34, 248, 226, 153, 252, 83, 15,
         105, 58, 214, 199, 181, 11, 8, 150, 10] },
    { sym := bytes32 5, nonce := bytes32 17,
      plaintext := bytes32 3, body :=
        [164, 146, 137, 137, 18, 34, 102, 125, 42, 38, 205, 66, 212, 19, 53, 37, 149, 196, 205,
         213, 162, 61, 145, 228, 80, 1, 244, 134, 196, 189, 75, 237, 51, 19, 125, 88, 130, 120,
         213, 131, 169, 98, 151, 52, 217, 120, 168, 223] }]

/-- The cryptography of a wallet, on the values that the sample uses. -/
def sampleCrypto : Crypto where
  symmetricKey := .ok
  encrypt sym nonce plaintext :=
    match sampleSealed.find? fun s => s.sym == sym && s.nonce == nonce && s.plaintext == plaintext
    with
    | some s => .ok (s.nonce ++ s.body)
    | none => .error "unknown plaintext"
  decrypt sym ciphertext :=
    match sampleSealed.find? fun s => s.sym == sym && s.nonce ++ s.body == ciphertext with
    | some s => .ok s.plaintext
    | none => .error "decryption failed"
  pbkdf2 _ _ _ _ := samplePasswordKey
  checkParams _ := .ok ()
  argon2id _ _ _ := .error "unknown password"
  sha256 bytes :=
    if bytes = samplePresentationKey then
      [114, 205, 110, 132, 34, 196, 7, 251, 109, 9, 134, 144, 241, 19, 11, 125, 237, 126, 194,
       247, 245, 225, 211, 11, 217, 213, 33, 240, 21, 54, 55, 147]
    else
      [100, 138, 165, 197, 121, 251, 48, 243, 138, 247, 68, 217, 125, 110, 200, 64, 199, 169, 18,
       119, 164, 153, 160, 215, 128, 243, 231, 49, 78, 202, 9, 11]

theorem sampleCrypto_inverts : sampleCrypto.Inverts := by
  have hback : ∀ s ∈ sampleSealed,
      sampleCrypto.decrypt s.sym (s.nonce ++ s.body) = .ok s.plaintext := by
    decide +kernel
  intro sym nonce plaintext ciphertext h
  simp only [sampleCrypto] at h
  split at h
  case h_1 s hs =>
    have hmem := List.mem_of_find?_eq_some hs
    have hkey := List.find?_some hs
    simp only [Bool.and_eq_true, beq_iff_eq] at hkey
    obtain ⟨⟨rfl, rfl⟩, rfl⟩ := hkey
    cases h
    exact hback s hmem
  case h_2 => cases h

def sampleDraws : Draws where
  recoveryKey := ⟨bytes32 3, rfl⟩
  passwordSalt := ⟨bytes32 2, rfl⟩
  rootPrimaryKey := ⟨bytes32 4, rfl⟩
  rootPrivilegedKey := ⟨bytes32 5, rfl⟩
  nonces i := bytes32 (UInt8.ofNat (10 + i))

def sampleKdf : PasswordKdf :=
  { algorithm := kdfAlgorithmPbkdf2, iterations := 1000, memoryKib := none, parallelism := none
    hashLength := none }

/-! ## Minted tokens -/

/-- A token whose version goes with its KDF metadata is read back from its own fields up to the
place it is at, and a new token that is read back derives the root it was made for. -/
theorem mintedToken_root (crypto : Crypto) (fromSlice : JsonReader) (hinverts : crypto.Inverts)
    (hread : ReadsObjects fromSlice) :
    (∀ token : UMPToken, token.profilesEncrypted ≠ some [] → token.Versioned →
      decodeUmpTokenFields fromSlice (encodeUmpTokenFields token) =
        .ok { token with currentOutpoint := none }) ∧
    (∀ (draws : Draws) (presentationKey password : Bytes) (kdf : PasswordKdf) (token : UMPToken),
      buildNewUserUmpToken crypto draws presentationKey password kdf = .ok token →
      ∃ decoded, decodeUmpTokenFields fromSlice (encodeUmpTokenFields token) = .ok decoded ∧
        deriveRootPrimaryKey crypto decoded presentationKey password =
          .ok draws.rootPrimaryKey) := by
  constructor
  · intro token hprofiles hversion
    exact decodeUmpTokenFields_encode hread hprofiles hversion
  · intro draws presentationKey password kdf token hbuild
    obtain ⟨-, hprofiles, hversion, hkdf, -⟩ := buildNewUserUmpToken_ok hbuild
    have hversioned : token.Versioned := by
      rw [UMPToken.Versioned, hversion, hkdf, Option.map_some]
    refine ⟨{ token with currentOutpoint := none },
      decodeUmpTokenFields_encode hread (by simp [hprofiles]) hversioned, ?_⟩
    calc deriveRootPrimaryKey crypto { token with currentOutpoint := none } presentationKey password
        = deriveRootPrimaryKey crypto token presentationKey password := rfl
      _ = .ok draws.rootPrimaryKey := deriveRootPrimaryKey_build hinverts hbuild

theorem mintedToken_root_sample :
    (∀ token : UMPToken, token.profilesEncrypted ≠ some [] → token.Versioned →
      decodeUmpTokenFields readObject (encodeUmpTokenFields token) =
        .ok { token with currentOutpoint := none }) ∧
    (∀ (draws : Draws) (presentationKey password : Bytes) (kdf : PasswordKdf) (token : UMPToken),
      buildNewUserUmpToken sampleCrypto draws presentationKey password kdf = .ok token →
      ∃ decoded, decodeUmpTokenFields readObject (encodeUmpTokenFields token) = .ok decoded ∧
        deriveRootPrimaryKey sampleCrypto decoded presentationKey password =
          .ok draws.rootPrimaryKey) ∧
    (buildNewUserUmpToken sampleCrypto sampleDraws samplePresentationKey samplePassword
      sampleKdf).toOption.isSome = true :=
  have h := mintedToken_root sampleCrypto readObject sampleCrypto_inverts readsObjects_readObject
  ⟨h.1, h.2, by decide +kernel⟩

/-- A token of a version that this wallet does not write. -/
def laterToken : UMPToken :=
  { passwordSalt := bytes32 2, passwordPresentationPrimary := bytes32 3
    passwordRecoveryPrimary := bytes32 4, presentationRecoveryPrimary := bytes32 5
    passwordPrimaryPrivileged := bytes32 6, presentationRecoveryPrivileged := bytes32 7
    presentationHash := bytes32 8, recoveryHash := bytes32 9
    presentationKeyEncrypted := bytes32 10, passwordKeyEncrypted := bytes32 11
    recoveryKeyEncrypted := bytes32 12, profilesEncrypted := none, umpVersion := some 5
    passwordKdf := none, currentOutpoint := none }

/-- A version other than 3 is not written, so it is not read back either. -/
theorem laterToken_version_lost :
    ¬ ∀ token : UMPToken, token.profilesEncrypted ≠ some [] →
      (token.umpVersion = some umpVersionV3 ↔ token.passwordKdf.isSome = true) →
      decodeUmpTokenFields readObject (encodeUmpTokenFields token) =
        .ok { token with currentOutpoint := none } := by
  intro h
  have hdecoded : decodeUmpTokenFields readObject (encodeUmpTokenFields laterToken) =
      .ok { laterToken with umpVersion := none } := rfl
  have hversion := h laterToken (by decide) (by decide)
  rw [hdecoded] at hversion
  simp [laterToken] at hversion

end WalletToolbox.AuthManager
