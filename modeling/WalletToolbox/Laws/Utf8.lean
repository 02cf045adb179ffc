import WalletToolbox.Permissions.TokenCrud

/-! # Text and its bytes

The lossy reading of bytes gives back every text from its own bytes: a sequence of the encoding is
one character, by the size of the sequence. -/

namespace WalletToolbox.Permissions

open WalletToolbox.Storage

theorem codePoint_eq {head : Nat} {tail : List UInt8} {c : Char}
    (h : tail.foldl (fun n b => n * 64 + b.toNat % 64) head = c.toNat) :
    codePoint head tail = c := by
  rw [codePoint, h, Char.ofNat_toNat]

theorem isContinuation_iff (b : UInt8) :
    isContinuation b = true ↔ 128 ≤ b.toNat ∧ b.toNat ≤ 191 := by
  simp [isContinuation, UInt8.le_iff_toNat_le]

theorem ofNat_toNat {n : Nat} (h : n < 256) : (UInt8.ofNat n).toNat = n := by
  simp; omega

theorem isSecond_iff (b₀ b₁ : UInt8) :
    isSecond b₀ b₁ = true ↔
      (if b₀.toNat = 224 then 160 else if b₀.toNat = 240 then 144 else 128) ≤ b₁.toNat ∧
      b₁.toNat ≤ (if b₀.toNat = 237 then 159 else if b₀.toNat = 244 then 143 else 191) := by
  unfold isSecond
  simp only [← UInt8.toNat_inj, UInt8.reduceToNat]
  grind [isContinuation_iff, UInt8.le_iff_toNat_le]

theorem fromUtf8Lossy_cons {b₀ : UInt8} (h : b₀.toNat < 128) (rest : Bytes) :
    fromUtf8Lossy (b₀ :: rest) = codePoint b₀.toNat [] :: fromUtf8Lossy rest := by
  have hlt : b₀ < 0x80 := by rw [UInt8.lt_iff_toNat_lt]; simpa using h
  conv_lhs => rw [fromUtf8Lossy.eq_def]
  simp only [hlt, if_true]

/-- The first byte of a sequence of two or more. -/
theorem lead {b₀ : UInt8} (hlow : 194 ≤ b₀.toNat) (hhigh : b₀.toNat ≤ 244) :
    ¬ b₀ < 0x80 ∧ (b₀ < 0xc2 || 0xf4 < b₀) = false := by
  simp only [UInt8.lt_iff_toNat_lt, UInt8.reduceToNat, Bool.or_eq_false_iff, decide_eq_false_iff_not]
  omega

theorem fromUtf8Lossy_two {b₀ b₁ : UInt8} (hlow : 194 ≤ b₀.toNat) (hhigh : b₀.toNat < 224)
    (h₁ : isSecond b₀ b₁ = true) (rest : Bytes) :
    fromUtf8Lossy (b₀ :: b₁ :: rest) = codePoint (b₀.toNat % 32) [b₁] :: fromUtf8Lossy rest := by
  obtain ⟨hascii, hlead⟩ := lead hlow (by omega)
  have hlt : b₀ < 0xe0 := by rw [UInt8.lt_iff_toNat_lt]; simpa using hhigh
  conv_lhs => rw [fromUtf8Lossy.eq_def]
  simp [hascii, hlead, h₁, hlt]

theorem fromUtf8Lossy_three {b₀ b₁ b₂ : UInt8} (hlow : 224 ≤ b₀.toNat) (hhigh : b₀.toNat < 240)
    (h₁ : isSecond b₀ b₁ = true) (h₂ : isContinuation b₂ = true) (rest : Bytes) :
    fromUtf8Lossy (b₀ :: b₁ :: b₂ :: rest) =
      codePoint (b₀.toNat % 16) [b₁, b₂] :: fromUtf8Lossy rest := by
  obtain ⟨hascii, hlead⟩ := @lead b₀ (by omega) (by omega)
  have htwo : ¬ b₀ < 0xe0 := by rw [UInt8.lt_iff_toNat_lt]; simpa using hlow
  have hlt : b₀ < 0xf0 := by rw [UInt8.lt_iff_toNat_lt]; simpa using hhigh
  conv_lhs => rw [fromUtf8Lossy.eq_def]
  simp [hascii, hlead, h₁, htwo, h₂, hlt]

theorem fromUtf8Lossy_four {b₀ b₁ b₂ b₃ : UInt8} (hlow : 240 ≤ b₀.toNat) (hhigh : b₀.toNat ≤ 244)
    (h₁ : isSecond b₀ b₁ = true) (h₂ : isContinuation b₂ = true) (h₃ : isContinuation b₃ = true)
    (rest : Bytes) :
    fromUtf8Lossy (b₀ :: b₁ :: b₂ :: b₃ :: rest) =
      codePoint (b₀.toNat % 8) [b₁, b₂, b₃] :: fromUtf8Lossy rest := by
  obtain ⟨hascii, hlead⟩ := @lead b₀ (by omega) (by omega)
  have htwo : ¬ b₀ < 0xe0 := by
    rw [UInt8.lt_iff_toNat_lt]; simp; omega
  have hthree : ¬ b₀ < 0xf0 := by rw [UInt8.lt_iff_toNat_lt]; simpa using hlow
  conv_lhs => rw [fromUtf8Lossy.eq_def]
  simp [hascii, hlead, h₁, htwo, h₂, hthree, h₃]

theorem fromUtf8Lossy_encodeChar (c : Char) (rest : Bytes) :
    fromUtf8Lossy (String.utf8EncodeChar c ++ rest) = c :: fromUtf8Lossy rest := by
  have hvalid : c.toNat < 0xd800 ∨ 0xdfff < c.toNat ∧ c.toNat < 0x110000 := c.valid
  have hval : c.val.toNat = c.toNat := rfl
  unfold String.utf8EncodeChar
  simp only [hval]
  generalize hv : c.toNat = v at hvalid
  by_cases h₁ : v ≤ 0x7f
  · rw [if_pos h₁, List.singleton_append, fromUtf8Lossy_cons (by rw [ofNat_toNat] <;> omega),
      codePoint_eq (c := c)]
    rw [hv, List.foldl_nil, ofNat_toNat (by omega)]
  rw [if_neg h₁]
  by_cases h₂ : v ≤ 0x7ff
  · rw [if_pos h₂]
    have hb₀ : (UInt8.ofNat (v / 64 % 32 + 192)).toNat = v / 64 % 32 + 192 := ofNat_toNat (by omega)
    have hb₁ : (UInt8.ofNat (v % 64 + 128)).toNat = v % 64 + 128 := ofNat_toNat (by omega)
    rw [List.cons_append, List.singleton_append, fromUtf8Lossy_two (by omega) (by omega),
      codePoint_eq (c := c)]
    · simp only [List.foldl_cons, List.foldl_nil]
      omega
    · rw [isSecond_iff]
      grind
  rw [if_neg h₂]
  by_cases h₃ : v ≤ 0xffff
  · rw [if_pos h₃]
    have hb₀ : (UInt8.ofNat (v / 4096 % 16 + 224)).toNat = v / 4096 % 16 + 224 :=
      ofNat_toNat (by omega)
    have hb₁ : (UInt8.ofNat (v / 64 % 64 + 128)).toNat = v / 64 % 64 + 128 :=
      ofNat_toNat (by omega)
    have hb₂ : (UInt8.ofNat (v % 64 + 128)).toNat = v % 64 + 128 := ofNat_toNat (by omega)
    rw [List.cons_append, List.cons_append, List.singleton_append,
      fromUtf8Lossy_three (by omega) (by omega), codePoint_eq (c := c)]
    · simp only [List.foldl_cons, List.foldl_nil]
      omega
    · rw [isSecond_iff]
      grind
    · rw [isContinuation_iff]
      omega
  rw [if_neg h₃]
  have hb₀ : (UInt8.ofNat (v / 262144 % 8 + 240)).toNat = v / 262144 % 8 + 240 :=
    ofNat_toNat (by omega)
  have hb₁ : (UInt8.ofNat (v / 4096 % 64 + 128)).toNat = v / 4096 % 64 + 128 :=
    ofNat_toNat (by omega)
  have hb₂ : (UInt8.ofNat (v / 64 % 64 + 128)).toNat = v / 64 % 64 + 128 :=
    ofNat_toNat (by omega)
  have hb₃ : (UInt8.ofNat (v % 64 + 128)).toNat = v % 64 + 128 := ofNat_toNat (by omega)
  rw [List.cons_append, List.cons_append, List.cons_append, List.singleton_append,
    fromUtf8Lossy_four (by omega) (by omega), codePoint_eq (c := c)]
  · simp only [List.foldl_cons, List.foldl_nil]
    omega
  · rw [isSecond_iff]
    grind
  · rw [isContinuation_iff]
    omega
  · rw [isContinuation_iff]
    omega

theorem toList_loop (bytes : ByteArray) (i : Nat) (read : Bytes) :
    ByteArray.toList.loop bytes i read = read.reverse ++ bytes.data.toList.drop i := by
  fun_induction ByteArray.toList.loop bytes i read with
  | case1 i read hlt ih =>
    have hlen : i < bytes.data.toList.length := by simpa using hlt
    have hget : bytes.get! i = bytes.data.toList[i] := by
      simp [ByteArray.get!, getElem!_pos bytes.data i hlt]
    rw [ih, List.reverse_cons, List.append_assoc, List.singleton_append, hget,
      ← List.drop_eq_getElem_cons]
  | case2 i read hle =>
    have hdrop : bytes.data.toList.drop i = [] :=
      List.drop_eq_nil_of_le (by simpa using Nat.le_of_not_lt hle)
    rw [hdrop, List.append_nil]

theorem toUTF8_toList (s : String) :
    s.toUTF8.toList = s.toList.flatMap String.utf8EncodeChar := by
  have hbytes : s.toUTF8.toList = s.toByteArray.data.toList := by
    rw [ByteArray.toList, toList_loop, String.toUTF8_eq_toByteArray]
    simp
  rw [hbytes, ← String.utf8Encode_toList, List.utf8Encode, List.toList_data_toByteArray]

/-- Bytes that are the encoding of a text are read back as that text. -/
theorem fromUtf8Lossy_toUTF8 (s : String) : fromUtf8Lossy s.toUTF8.toList = s.toList := by
  rw [toUTF8_toList]
  induction s.toList with
  | nil => rw [List.flatMap_nil, fromUtf8Lossy]
  | cons c cs ih => rw [List.flatMap_cons, fromUtf8Lossy_encodeChar, ih]

end WalletToolbox.Permissions
