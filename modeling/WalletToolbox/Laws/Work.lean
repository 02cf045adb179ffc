import WalletToolbox.Chaintracks.Work
import WalletToolbox.Laws.BuildSignable
import Mathlib.NumberTheory.LucasLehmer

/-! # Work

The functions on bytes and on text are those on numbers.
The division is exact where it goes bit by bit.
Where the divisor is below `2 ^ 128` it has a path of its own, which gives the numerator's parts to
the wrong limbs, and no target up to there has its work. -/

namespace WalletToolbox.Chaintracks.Work

open WalletToolbox.Lib.BigEndian
open WalletToolbox.Storage (hexDigit hexValue hexPair)

/-! ## Bytes -/

/-- A bit that is clear is set by adding it. -/
theorem or_two_pow {n k : Nat} (h : n.testBit k = false) : n ||| 2 ^ k = n + 2 ^ k := by
  have hlow : n % 2 ^ (k + 1) < 2 ^ k := by
    have hbit : n / 2 ^ k % 2 = 0 := by
      rw [Nat.testBit_eq_decide_div_mod_eq] at h
      have := of_decide_eq_false h
      omega
    rw [pow_succ, Nat.mod_mul, hbit, Nat.mul_zero, Nat.add_zero]
    exact Nat.mod_lt _ (Nat.two_pow_pos k)
  have hlow' : 2 ^ k + n % 2 ^ (k + 1) < 2 ^ (k + 1) :=
    calc 2 ^ k + n % 2 ^ (k + 1) < 2 ^ k + 2 ^ k := by omega
      _ = 2 ^ (k + 1) := by ring
  calc n ||| 2 ^ k
      = (2 ^ (k + 1) * (n / 2 ^ (k + 1)) ||| n % 2 ^ (k + 1)) ||| 2 ^ k := by
        rw [← Nat.two_pow_add_eq_or_of_lt (Nat.mod_lt _ (Nat.two_pow_pos _)), Nat.div_add_mod]
    _ = 2 ^ (k + 1) * (n / 2 ^ (k + 1)) ||| (2 ^ k * 1 ||| n % 2 ^ (k + 1)) := by
        rw [Nat.or_assoc, Nat.or_comm (n % _), Nat.mul_one]
    _ = 2 ^ (k + 1) * (n / 2 ^ (k + 1)) + (2 ^ k + n % 2 ^ (k + 1)) := by
        rw [← Nat.two_pow_add_eq_or_of_lt hlow, Nat.mul_one,
          ← Nat.two_pow_add_eq_or_of_lt hlow']
    _ = n + 2 ^ k := by
        have := Nat.div_add_mod n (2 ^ (k + 1))
        omega

namespace Bytes32

theorem toNat_lt (b : Bytes32) : b.toNat < 2 ^ 256 := by
  have h := value_lt b.below
  rwa [b.length_eq, show 256 ^ 32 = 2 ^ 256 by norm_num] at h

@[simp] theorem toNat_zero : zero.toNat = 0 := value_replicate_zero 32

/-- The place of a bit: of its byte, and of the bit in the byte. -/
theorem two_pow_place {i : Nat} (hi : i < 256) :
    2 ^ (7 - i % 8) * 256 ^ (31 - i / 8) = 2 ^ (255 - i) := by
  rw [show 256 = 2 ^ 8 by norm_num, ← pow_mul, ← pow_add]
  congr 1
  omega

theorem bit_eq (b : Bytes32) {i : Nat} (hi : i < 256) : b.bit i = b.toNat.testBit (255 - i) := by
  have hlength : i / 8 < b.bytes.length := by
    rw [b.length_eq]
    omega
  have hdigit := value_div_mod b.below hlength
  rw [b.length_eq, show 32 - 1 - i / 8 = 31 - i / 8 by omega] at hdigit
  rw [bit, ← hdigit, show 256 = 2 ^ 8 by norm_num, ← pow_mul, Nat.testBit_mod_two_pow,
    Nat.testBit_div_two_pow, decide_eq_true (by omega : 7 - i % 8 < 8), Bool.true_and, toNat]
  congr 1
  omega

theorem toNat_orBit {b : Bytes32} {i : Nat} (hi : i < 256)
    (hclear : b.toNat.testBit (255 - i) = false) (bit : Bool) :
    (b.orBit i bit).toNat = b.toNat + bit.toNat * 2 ^ (255 - i) := by
  have hlength : i / 8 < b.bytes.length := by
    rw [b.length_eq]
    omega
  have hbyte : (b.bytes.getD (i / 8) 0).testBit (7 - i % 8) = false := by
    rw [← hclear, ← bit_eq b hi, Bytes32.bit]
  have hor : b.bytes.getD (i / 8) 0 ||| bit.toNat * 2 ^ (7 - i % 8) =
      b.bytes.getD (i / 8) 0 + bit.toNat * 2 ^ (7 - i % 8) := by
    cases bit with
    | false => simp
    | true => rw [Bool.toNat_true, Nat.one_mul, or_two_pow hbyte]
  show value 256 (b.bytes.set (i / 8) (b.bytes.getD (i / 8) 0 ||| bit.toNat * 2 ^ (7 - i % 8))) = _
  rw [hor, value_set_add hlength, b.length_eq,
    show 32 - 1 - i / 8 = 31 - i / 8 by omega, Nat.mul_assoc, two_pow_place hi, toNat]

theorem toNat_shl1 (b : Bytes32) : (shl1Bytes32 b).toNat = b.toNat * 2 % 2 ^ 256 := by
  have hsum : value 256 (ripple shl1Step b.bytes).1 +
      (ripple shl1Step b.bytes).2 * 256 ^ b.bytes.length = value 256 (b.bytes.map (· * 2)) := by
    refine value_ripple (P := (· ≤ 1)) (by decide) fun x hx c hc => ?_
    have hx' := b.below x hx
    have hor : x * 2 % 256 ||| c = x * 2 % 256 + c := by
      have hc' : c < 2 ^ 1 := by omega
      rw [show x * 2 % 256 = 2 ^ 1 * (x % 128) by omega, Nat.two_pow_add_eq_or_of_lt hc']
    refine ⟨?_, (shl1Step_lt hx' hc).2⟩
    rw [shl1Step, hor]
    dsimp only
    omega
  rw [value_map_mul, b.length_eq, show 256 ^ 32 = 2 ^ 256 by norm_num] at hsum
  have hlt := (shl1Bytes32 b).toNat_lt
  rw [toNat, toNat]
  rw [toNat, shl1Bytes32] at hlt
  rw [shl1Bytes32, ← hsum, Nat.add_mul_mod_self_right, Nat.mod_eq_of_lt hlt]

theorem toNat_sub {a b : Bytes32} (h : b.toNat ≤ a.toNat) :
    (subBytes32 a b).toNat = a.toNat - b.toNat := by
  have hdiff : value 256 (ripple subStep (a.bytes.zip b.bytes)).1 +
      value 256 ((a.bytes.zip b.bytes).map Prod.snd) =
        value 256 ((a.bytes.zip b.bytes).map Prod.fst) +
          (ripple subStep (a.bytes.zip b.bytes)).2 * 256 ^ (a.bytes.zip b.bytes).length :=
    value_ripple_borrow (P := (· ≤ 1)) (by decide) fun x hx c hc => by
      obtain ⟨hfirst, hsecond⟩ := zip_lt hx
      refine ⟨?_, (subStep_lt hfirst hsecond hc).2⟩
      unfold subStep
      by_cases hneg : (x.1 : Int) - x.2 - c < 0 <;> simp only [hneg, if_true, if_false] <;> omega
  rw [List.map_fst_zip (by rw [a.length_eq, b.length_eq]),
    List.map_snd_zip (by rw [a.length_eq, b.length_eq]), List.length_zip, a.length_eq, b.length_eq,
    Nat.min_self, show 256 ^ 32 = 2 ^ 256 by norm_num] at hdiff
  have ha := a.toNat_lt
  have hlt := (subBytes32 a b).toNat_lt
  have hdiff : (subBytes32 a b).toNat + b.toNat =
    a.toNat + (ripple subStep (a.bytes.zip b.bytes)).2 * 2 ^ 256 := hdiff
  -- a borrow out of the highest byte would make the difference too large
  rcases Nat.eq_zero_or_pos (ripple subStep (a.bytes.zip b.bytes)).2 with hzero | hpos
  · rw [hzero] at hdiff
    omega
  · have := Nat.mul_le_mul_right (2 ^ 256) hpos
    omega

end Bytes32

theorem cmpBytes_spec {as bs : List Nat} (ha : Below 256 as) (hb : Below 256 bs)
    (hlength : as.length = bs.length) :
    (0 ≤ cmpBytes as bs ↔ value 256 bs ≤ value 256 as) ∧
      (0 < cmpBytes as bs ↔ value 256 bs < value 256 as) := by
  induction as generalizing bs with
  | nil =>
    cases bs with
    | nil => simp [cmpBytes]
    | cons b bs => simp at hlength
  | cons a as ih =>
    cases bs with
    | nil => simp at hlength
    | cons b bs =>
      obtain ⟨hle, hlt⟩ := ih (below_cons.mp ha).2 (below_cons.mp hb).2 (by simpa using hlength)
      have hless := value_cons_lt_cons (d := a) (e := b) (below_cons.mp ha).2 (below_cons.mp hb).2
        (by simpa using hlength)
      have hmore := value_cons_lt_cons (d := b) (e := a) (below_cons.mp hb).2 (below_cons.mp ha).2
        (by simpa using hlength.symm)
      rw [cmpBytes]
      rcases Nat.lt_trichotomy a b with h | rfl | h
      · rw [if_pos h]
        omega
      · rw [if_neg (Nat.lt_irrefl a), if_neg (Nat.lt_irrefl a)]
        omega
      · rw [if_neg (by omega), if_pos h]
        omega

theorem cmpBytes32_spec (a b : Bytes32) :
    (0 ≤ cmpBytes32 a b ↔ b.toNat ≤ a.toNat) ∧ (0 < cmpBytes32 a b ↔ b.toNat < a.toNat) :=
  cmpBytes_spec a.below b.below (by rw [a.length_eq, b.length_eq])

/-! ## The bitwise division -/

/-- A turn of the division on numbers. -/
def numberStep (a b : Nat) (qr : Nat × Nat) (i : Nat) : Nat × Nat :=
  let r := 2 * qr.2 % 2 ^ 256 + a / 2 ^ (255 - i) % 2
  if b ≤ r then (2 * qr.1 + 1, r - b) else (2 * qr.1, r)

theorem bytes32Divmod_numbers (a b : Nat) :
    Chaintracks.bytes32Divmod a b = (List.range 256).foldl (numberStep a b) (0, 0) := rfl

/-- The state of the division on bytes after some turns, beside that on numbers: the quotient has
its bits at their places already. -/
def Alike (i : Nat) (bytes : Bytes32 × Bytes32) (numbers : Nat × Nat) : Prop :=
  bytes.1.toNat = numbers.1 * 2 ^ (256 - i) ∧ bytes.2.toNat = numbers.2

theorem testBit_toNat (a : Nat) (k : Nat) : (a.testBit k).toNat = a / 2 ^ k % 2 := by
  rw [Nat.testBit_eq_decide_div_mod_eq]
  rcases Nat.mod_two_eq_zero_or_one (a / 2 ^ k) with h | h <;> simp [h]

theorem alike_step {a b : Bytes32} {i : Nat} (hi : i < 256) {bytes : Bytes32 × Bytes32}
    {numbers : Nat × Nat} (h : Alike i bytes numbers) :
    Alike (i + 1) (divStep a b bytes i) (numberStep a.toNat b.toNat numbers i) := by
  obtain ⟨hquotient, hremainder⟩ := h
  have hplace : 2 ^ (256 - i) = 2 * 2 ^ (255 - i) := by
    rw [← pow_succ']
    congr 1
    omega
  have hwidth : 256 - (i + 1) = 255 - i := by omega
  -- the remainder with the next bit of the numerator
  have hshifted : ((shl1Bytes32 bytes.2).orBit 255 (a.bit i)).toNat =
      2 * numbers.2 % 2 ^ 256 + a.toNat / 2 ^ (255 - i) % 2 := by
    have heven : (shl1Bytes32 bytes.2).toNat.testBit (255 - 255) = false := by
      rw [Bytes32.toNat_shl1, Nat.sub_self, Nat.testBit_zero]
      exact decide_eq_false (by omega)
    rw [Bytes32.toNat_orBit (by decide) heven, Bytes32.toNat_shl1, hremainder, Nat.mul_comm numbers.2, Bytes32.bit_eq a hi,
      testBit_toNat, Nat.sub_self, pow_zero, Nat.mul_one]
  have hclear : bytes.1.toNat.testBit (255 - i) = false := by
    rw [hquotient, hplace, show numbers.1 * (2 * 2 ^ (255 - i)) = 2 ^ (255 - i) * (2 * numbers.1) by
      ring, Nat.testBit_two_pow_mul, Nat.sub_self, Nat.testBit_zero]
    simp
  have hcompare := (cmpBytes32_spec ((shl1Bytes32 bytes.2).orBit 255 (a.bit i)) b).1
  rw [hshifted] at hcompare
  unfold divStep numberStep Alike
  rw [hwidth]
  by_cases hge : b.toNat ≤ 2 * numbers.2 % 2 ^ 256 + a.toNat / 2 ^ (255 - i) % 2
  · simp only [if_pos hge, if_pos (hcompare.mpr hge)]
    refine ⟨?_, ?_⟩
    · rw [Bytes32.toNat_orBit hi hclear, hquotient, hplace, Bool.toNat_true]
      ring
    · rw [Bytes32.toNat_sub (by rw [hshifted]; exact hge), hshifted]
  · simp only [if_neg hge, if_neg fun h => hge (hcompare.mp h)]
    refine ⟨?_, hshifted⟩
    rw [hquotient, hplace]
    ring

theorem alike_divmod (a b : Bytes32) {n : Nat} (hn : n ≤ 256) :
    Alike n ((List.range n).foldl (divStep a b) (Bytes32.zero, Bytes32.zero))
      ((List.range n).foldl (numberStep a.toNat b.toNat) (0, 0)) := by
  induction n with
  | zero => exact ⟨by simp, by simp⟩
  | succ n ih =>
    rw [List.range_succ, List.foldl_append, List.foldl_append]
    exact alike_step (by omega) (ih (by omega))

/-- The division on bytes is the one on numbers. -/
theorem bytes32Divmod_toNat (a b : Bytes32) :
    (bytes32Divmod a b).1.toNat = (Chaintracks.bytes32Divmod a.toNat b.toNat).1 ∧
      (bytes32Divmod a b).2.toNat = (Chaintracks.bytes32Divmod a.toNat b.toNat).2 := by
  obtain ⟨hquotient, hremainder⟩ := alike_divmod a b (le_refl 256)
  rw [Nat.sub_self, pow_zero, Nat.mul_one] at hquotient
  exact ⟨hquotient, hremainder⟩

/-- A bit more of the numerator. -/
theorem numberStep_eq {a b i : Nat} (hb : 0 < b) (ha : a < 2 ^ 256) (hi : i < 256) :
    numberStep a b (a / 2 ^ (256 - i) / b, a / 2 ^ (256 - i) % b) i =
      (a / 2 ^ (255 - i) / b, a / 2 ^ (255 - i) % b) := by
  have hbit : a / 2 ^ (256 - i) = a / 2 ^ (255 - i) / 2 := by
    rw [Nat.div_div_eq_div_mul, ← pow_succ]
    congr 2
    omega
  have hsmall : a / 2 ^ (256 - i) % b < 2 ^ 255 := by
    refine Nat.lt_of_le_of_lt (Nat.mod_le _ _) (Nat.div_lt_of_lt_mul ?_)
    calc a < 2 ^ 256 := ha
      _ ≤ 2 ^ (256 - i) * 2 ^ 255 := by
        rw [← pow_add]
        exact Nat.pow_le_pow_right (by decide) (by omega)
  obtain ⟨p, hp⟩ : ∃ p, a / 2 ^ (255 - i) = p := ⟨_, rfl⟩
  rw [hbit, hp] at hsmall
  rw [hbit, numberStep, hp]
  have hdiv := Nat.div_add_mod (p / 2) b
  have hlt := Nat.mod_lt (p / 2) hb
  have hfits : 2 * (p / 2 % b) % 2 ^ 256 = 2 * (p / 2 % b) := Nat.mod_eq_of_lt (by omega)
  dsimp only
  rw [hfits]
  by_cases hge : b ≤ 2 * (p / 2 % b) + p % 2
  · rw [if_pos hge]
    have hunique := (Nat.div_mod_unique (a := p) (d := 2 * (p / 2 / b) + 1)
      (c := 2 * (p / 2 % b) + p % 2 - b) hb).mpr
      ⟨by rw [show b * (2 * (p / 2 / b) + 1) = 2 * (b * (p / 2 / b)) + b by ring]; omega, by omega⟩
    rw [hunique.1, hunique.2]
  · rw [if_neg hge]
    have hunique := (Nat.div_mod_unique (a := p) (d := 2 * (p / 2 / b))
      (c := 2 * (p / 2 % b) + p % 2) hb).mpr
      ⟨by rw [show b * (2 * (p / 2 / b)) = 2 * (b * (p / 2 / b)) by ring]; omega, by omega⟩
    rw [hunique.1, hunique.2]

/-- The remainder is below the numerator's bits so far, and no bit is lost when it is shifted. -/
theorem numberSteps_eq {a b n : Nat} (hb : 0 < b) (ha : a < 2 ^ 256) (hn : n ≤ 256) :
    (List.range n).foldl (numberStep a b) (0, 0) =
      (a / 2 ^ (256 - n) / b, a / 2 ^ (256 - n) % b) := by
  induction n with
  | zero =>
    rw [Nat.sub_zero, Nat.div_eq_of_lt ha, Nat.zero_div, Nat.zero_mod]
    rfl
  | succ n ih =>
    rw [List.range_succ, List.foldl_append, ih (by omega), List.foldl_cons, List.foldl_nil,
      numberStep_eq hb ha (by omega)]
    rw [show 256 - (n + 1) = 255 - n by omega]

theorem bytes32Divmod_eq {a b : Nat} (hb : 0 < b) (ha : a < 2 ^ 256) :
    Chaintracks.bytes32Divmod a b = (a / b, a % b) := by
  rw [bytes32Divmod_numbers, numberSteps_eq hb ha (le_refl 256), Nat.sub_self, pow_zero, Nat.div_one]

/-! ## The limbs -/

theorem toNat_u128pair {hi lo : Nat} (hhi : hi < 2 ^ 128) (hlo : lo < 2 ^ 128) :
    (u128pairToBytes32 hi lo).toNat = hi * 2 ^ 128 + lo := by
  have hwidth : 256 ^ 16 = 2 ^ 128 := by norm_num
  rw [Bytes32.toNat, u128pairToBytes32, value_append, value_digits, value_digits, length_digits,
    hwidth, Nat.mod_eq_of_lt hhi, Nat.mod_eq_of_lt hlo]

theorem bytes32ToU128pair_eq (b : Bytes32) :
    bytes32ToU128pair b = (b.toNat / 2 ^ 128, b.toNat % 2 ^ 128) := by
  have hsplit := @value_take_drop 256 b.bytes 16
  have hlow := value_lt (b.below.drop 16)
  rw [List.length_drop, b.length_eq, show 256 ^ (32 - 16) = 2 ^ 128 by norm_num] at hlow
  rw [b.length_eq, show 256 ^ (32 - 16) = 2 ^ 128 by norm_num] at hsplit
  rw [bytes32ToU128pair, Bytes32.toNat, ← hsplit, Nat.mul_comm, Nat.mul_add_div (by decide),
    Nat.div_eq_of_lt hlow, Nat.add_zero, Nat.mul_add_mod, Nat.mod_eq_of_lt hlow]


/-- The slow path. -/
theorem div256_of_high {aHi aLo bHi bLo : Nat} (h : bHi ≠ 0) :
    Chaintracks.div256 aHi aLo bHi bLo =
      ((Chaintracks.bytes32Divmod (aHi * 2 ^ 128 + aLo) (bHi * 2 ^ 128 + bLo)).1 / 2 ^ 128,
        (Chaintracks.bytes32Divmod (aHi * 2 ^ 128 + aLo) (bHi * 2 ^ 128 + bLo)).1 % 2 ^ 128) := by
  rewrite [Chaintracks.div256, if_neg h]
  cases Chaintracks.bytes32Divmod (aHi * 2 ^ 128 + aLo) (bHi * 2 ^ 128 + bLo) with
  | mk q r => rfl

/-- The fast path. -/
theorem div256_of_low (aHi aLo bLo : Nat) :
    Chaintracks.div256 aHi aLo 0 bLo =
      ((div128ByU128 aHi 0 bLo).1, (div128ByU128 aLo (div128ByU128 aHi 0 bLo).2 bLo).1) := by
  rewrite [Chaintracks.div256, if_pos rfl]
  cases div128ByU128 aHi 0 bLo with
  | mk qHi r => dsimp only

/-- The four limbs, with the remainders between them. -/
theorem div128ByU128_limbs {hi lo d r₀ r₁ r₂ : Nat} (h₀ : hi / 2 ^ 64 % d = r₀)
    (h₁ : (r₀ * 2 ^ 64 % 2 ^ 128 + hi % 2 ^ 64) % d = r₁)
    (h₂ : (r₁ * 2 ^ 64 % 2 ^ 128 + lo / 2 ^ 64) % d = r₂) :
    div128ByU128 hi lo d =
      ((r₁ * 2 ^ 64 % 2 ^ 128 + lo / 2 ^ 64) / d % 2 ^ 64 * 2 ^ 64 +
          (r₂ * 2 ^ 64 % 2 ^ 128 + lo % 2 ^ 64) / d % 2 ^ 64,
        (r₂ * 2 ^ 64 % 2 ^ 128 + lo % 2 ^ 64) % d) := by
  rewrite [div128ByU128]
  simp only [List.foldl_cons, List.foldl_nil, List.nil_append, List.cons_append, Nat.zero_mul,
    Nat.zero_mod, Nat.zero_add, h₀, h₁, h₂, List.getD_cons_succ, List.getD_cons_zero]

/-- The division of limbs is the one on numbers. -/
theorem div256_eq {aHi aLo bHi bLo : Nat} (haHi : aHi < 2 ^ 128) (haLo : aLo < 2 ^ 128)
    (hbHi : bHi < 2 ^ 128) (hbLo : bLo < 2 ^ 128) (hb : ¬(bHi = 0 ∧ bLo = 0)) :
    div256 aHi aLo bHi bLo = some (Chaintracks.div256 aHi aLo bHi bLo) := by
  rewrite [div256, if_neg hb]
  by_cases hfast : bHi = 0
  · subst hfast
    rewrite [if_pos rfl, div256_of_low]
    cases div128ByU128 aHi 0 bLo with
    | mk qHi r => dsimp only
  · rewrite [if_neg hfast, div256_of_high hfast]
    dsimp only
    rw [bytes32ToU128pair_eq, (bytes32Divmod_toNat _ _).1, toNat_u128pair haHi haLo,
      toNat_u128pair hbHi hbLo]

/-! ## The fast path -/

/-- What the limbs of a divisor below `2 ^ 64` give: the quotient loses its two high limbs. -/
theorem div128ByU128_of_small {hi lo d : Nat} (hd : 0 < d) (hsmall : d ≤ 2 ^ 64)
    (hlo : lo < 2 ^ 128) :
    div128ByU128 hi lo d = ((hi * 2 ^ 128 + lo) / d % 2 ^ 128, (hi * 2 ^ 128 + lo) % d) := by
  -- a limb after a remainder: the digit of the quotient fits, and no bit is lost
  have hstep : ∀ n limb, limb < 2 ^ 64 →
      n % d * 2 ^ 64 % 2 ^ 128 = n % d * 2 ^ 64 ∧
        (n % d * 2 ^ 64 + limb) / d < 2 ^ 64 ∧
        (n * 2 ^ 64 + limb) / d = n / d * 2 ^ 64 + (n % d * 2 ^ 64 + limb) / d ∧
        (n * 2 ^ 64 + limb) % d = (n % d * 2 ^ 64 + limb) % d := by
    intro n limb hlimb
    have hmod := Nat.mod_lt n hd
    have hnum : n * 2 ^ 64 + limb = n % d * 2 ^ 64 + limb + d * (n / d * 2 ^ 64) := by
      conv_lhs => rw [← Nat.div_add_mod n d]
      ring
    refine ⟨Nat.mod_eq_of_lt (by omega), Nat.div_lt_of_lt_mul ?_, ?_, ?_⟩
    · calc n % d * 2 ^ 64 + limb < (n % d + 1) * 2 ^ 64 := by omega
        _ ≤ d * 2 ^ 64 := Nat.mul_le_mul_right _ hmod
    · rw [hnum, Nat.add_mul_div_left _ _ hd, Nat.add_comm]
    · rw [hnum, Nat.add_mul_mod_self_left]
  obtain ⟨hshift₁, -, -, hrest₁⟩ := hstep (hi / 2 ^ 64) (hi % 2 ^ 64) (Nat.mod_lt _ (by decide))
  obtain ⟨hshift₂, hfits₂, hquotient₂, hrest₂⟩ := hstep hi (lo / 2 ^ 64) (by omega)
  obtain ⟨hshift₃, hfits₃, hquotient₃, hrest₃⟩ :=
    hstep (hi * 2 ^ 64 + lo / 2 ^ 64) (lo % 2 ^ 64) (Nat.mod_lt _ (by decide))
  have hall : (hi * 2 ^ 64 + lo / 2 ^ 64) * 2 ^ 64 + lo % 2 ^ 64 = hi * 2 ^ 128 + lo := by
    have := Nat.div_add_mod lo (2 ^ 64)
    rw [show (2 : Nat) ^ 128 = 2 ^ 64 * 2 ^ 64 by norm_num]
    omega
  rw [Nat.div_add_mod'] at hrest₁
  rw [hall] at hquotient₃ hrest₃
  have hsecond : (hi / 2 ^ 64 % d * 2 ^ 64 % 2 ^ 128 + hi % 2 ^ 64) % d = hi % d := by
    rw [hshift₁, ← hrest₁]
  have hthird : (hi % d * 2 ^ 64 % 2 ^ 128 + lo / 2 ^ 64) % d = (hi * 2 ^ 64 + lo / 2 ^ 64) % d := by
    rw [hshift₂, ← hrest₂]
  have hquotient : (hi % d * 2 ^ 64 + lo / 2 ^ 64) / d * 2 ^ 64 +
      ((hi * 2 ^ 64 + lo / 2 ^ 64) % d * 2 ^ 64 + lo % 2 ^ 64) / d =
        (hi * 2 ^ 128 + lo) / d % 2 ^ 128 := by
    have hhigh : hi / d * 2 ^ 64 * 2 ^ 64 = 2 ^ 128 * (hi / d) := by
      rw [Nat.mul_assoc, Nat.mul_comm, show (2 : Nat) ^ 64 * 2 ^ 64 = 2 ^ 128 by norm_num]
    rw [hquotient₃, hquotient₂, Nat.add_mul, hhigh, Nat.add_assoc, Nat.mul_add_mod]
    exact (Nat.mod_eq_of_lt (by omega)).symm
  rewrite [div128ByU128_limbs (Eq.refl (hi / 2 ^ 64 % d)) hsecond hthird, hshift₂, hshift₃, ← hrest₃,
    Nat.mod_eq_of_lt hfits₂, Nat.mod_eq_of_lt hfits₃, hquotient]
  rfl

theorem mersenne_prime : Nat.Prime (2 ^ 127 - 1) := by
  have hprime : (mersenne 127).Prime := lucas_lehmer_sufficiency _ (by norm_num) (by norm_num)
  exact hprime

/-- A divisor that leaves one is two, or is too large: `2 ^ 128 - 2` is twice a prime. -/
theorem mod_ne_one {d : Nat} (htwo : 2 < d) (hsmall : d < 2 ^ 64) : (2 ^ 128 - 1) % d ≠ 1 := by
  intro hone
  have hdvd : d ∣ 2 * (2 ^ 127 - 1) := by
    refine ⟨(2 ^ 128 - 1) / d, ?_⟩
    have := Nat.div_add_mod (2 ^ 128 - 1) d
    omega
  have hnot : ¬2 ^ 127 - 1 ∣ d := fun h => by
    have := Nat.le_of_dvd (by omega) h
    omega
  have hcoprime := ((Nat.Prime.coprime_iff_not_dvd mersenne_prime).mpr hnot).symm
  have := Nat.le_of_dvd (by decide) (hcoprime.dvd_of_dvd_mul_right hdvd)
  omega

/-- The high limb of the work of a target in the fast path is wrong. -/
theorem fast_high_ne {A d : Nat} (hA : A + 1 = 2 ^ 128) (htwo : 2 ≤ d)
    (hlt : d < 2 ^ 128) :
    (div128ByU128 A 0 d).1 ≠ A / d := by
  have hpos : 0 < A / d := Nat.div_pos (by omega) (by omega)
  have hd : 0 < d := by omega
  rcases Nat.lt_or_ge d (2 ^ 64) with hsmall | hlarge
  · -- the quotient of the remainder stands where that of the limb belongs
    obtain ⟨s, hs⟩ : ∃ s, A % d = s := ⟨_, rfl⟩
    have hlow : (A * 2 ^ 128 + 0) / d % 2 ^ 128 = s * 2 ^ 128 / d := by
      have hnum : A * 2 ^ 128 + 0 = s * 2 ^ 128 + d * (A / d * 2 ^ 128) := by
        rw [← hs]
        conv_lhs => rw [← Nat.div_add_mod A d]
        ring
      have hfits : s * 2 ^ 128 / d < 2 ^ 128 := by
        rw [Nat.div_lt_iff_lt_mul hd, Nat.mul_comm]
        exact Nat.mul_lt_mul_of_pos_left (hs ▸ Nat.mod_lt _ hd) (by norm_num)
      rw [hnum, Nat.add_mul_div_left _ _ hd, Nat.add_mul_mod_self_right, Nat.mod_eq_of_lt hfits]
    rw [div128ByU128_of_small hd hsmall.le (by norm_num), hlow]
    rcases Nat.lt_or_ge 1 s with hmany | hfew
    · have hdouble : A / d * 2 ≤ s * 2 ^ 128 / d := by
        rw [Nat.le_div_iff_mul_le hd]
        calc A / d * 2 * d = A / d * d * 2 := by ring
          _ ≤ A * 2 := Nat.mul_le_mul_right _ (Nat.div_mul_le_self A d)
          _ ≤ s * 2 ^ 128 := by omega
      omega
    · rcases Nat.le_one_iff_eq_zero_or_eq_one.mp hfew with rfl | rfl
      · rw [Nat.zero_mul, Nat.zero_div]
        exact hpos.ne
      · have : d = 2 := by
          by_contra hne
          exact mod_ne_one (by omega) hsmall ((Nat.eq_sub_of_add_eq hA) ▸ hs)
        subst this
        omega
  · have hfew : A / d < 2 ^ 64 := by
      rw [Nat.div_lt_iff_lt_mul hd]
      calc A < 2 ^ 64 * 2 ^ 64 := by omega
        _ ≤ 2 ^ 64 * d := Nat.mul_le_mul_left _ hlarge
    obtain ⟨r, hr⟩ : ∃ r, (A / 2 ^ 64 % d * 2 ^ 64 % 2 ^ 128 + A % 2 ^ 64) % d =
      r := ⟨_, rfl⟩
    rewrite [div128ByU128_limbs (Eq.refl (A / 2 ^ 64 % d)) hr
      (Eq.refl ((r * 2 ^ 64 % 2 ^ 128 + 0 / 2 ^ 64) % d)), Nat.zero_div, Nat.zero_mod, Nat.add_zero,
      Nat.add_zero]
    obtain ⟨c, hc⟩ : ∃ c, r * 2 ^ 64 % 2 ^ 128 = c := ⟨_, rfl⟩
    rewrite [hc]
    rcases Nat.lt_or_ge c d with hbelow | habove
    · -- no third limb: the low half of the remainder is empty, and there is no fourth
      have hempty : c * 2 ^ 64 % 2 ^ 128 = 0 := by
        have hsquare : (2 : Nat) ^ 128 = 2 ^ 64 * 2 ^ 64 := by norm_num
        rw [← hc, hsquare, Nat.mul_mod_mul_right, Nat.mod_mul_right_mod, Nat.mul_mod_left,
          Nat.zero_mul]
      rewrite [Nat.mod_eq_of_lt hbelow, Nat.div_eq_of_lt hbelow, hempty, Nat.zero_div, Nat.zero_mod,
        Nat.zero_mul]
      exact hpos.ne
    · have hone : 1 ≤ c / d := Nat.div_pos habove hd
      have hfits : c / d < 2 ^ 64 := by
        rw [Nat.div_lt_iff_lt_mul hd]
        calc c < 2 ^ 64 * 2 ^ 64 := by omega
          _ ≤ 2 ^ 64 * d := Nat.mul_le_mul_left _ hlarge
      rw [Nat.mod_eq_of_lt hfits]
      omega

/-! ## Text -/

/-- The 64 hex digits of a number. -/
def hex64 (n : Nat) : String := String.ofList ((digits 16 64 n).map hexDigit)

theorem hexEncode_bytes (b : Bytes32) : hexEncode b.bytes = hex64 b.toNat := by
  have hpair : ∀ d ∈ b.bytes, [hexDigit (d / 16), hexDigit (d % 16)] = (digits 16 2 d).map hexDigit := by
    intro d hd
    have := b.below d hd
    simp only [digits, pow_one, pow_zero, Nat.div_one, List.map_cons, List.map_nil]
    rw [Nat.mod_eq_of_lt (by omega : d / 16 < 16)]
  have hbytes : digits 256 32 b.toNat = b.bytes := by
    rw [← b.length_eq]
    exact digits_value b.below
  rw [hexEncode, hex64, show 64 = 32 * 2 from rfl, digits_pow, show 16 ^ 2 = 256 from rfl, hbytes,
    List.map_flatMap]
  congr 1
  exact List.flatMap_congr hpair

theorem hex16_append {a b c d : Nat} (hb : b < 2 ^ 64) (hc : c < 2 ^ 64) (hd : d < 2 ^ 64) :
    hex16 a ++ hex16 b ++ hex16 c ++ hex16 d =
      hex64 ((a * 2 ^ 64 + b) * 2 ^ 128 + (c * 2 ^ 64 + d)) := by
  have hlimb : 2 ^ 64 = 16 ^ 16 := by norm_num
  have hpair : 2 ^ 128 = 16 ^ (16 + 16) := by norm_num
  have hlow : c * 2 ^ 64 + d < 2 ^ 128 := by omega
  rw [hpair] at hlow
  rw [hlimb] at hb hd hlow
  rw [hex64, hlimb, hpair, show 64 = 16 + 16 + (16 + 16) from rfl, digits_mul_add _ _ hlow,
    digits_mul_add _ _ hb, digits_mul_add _ _ hd]
  simp only [hex16, List.map_append, String.ofList_append, String.append_assoc]

theorem pairBytes_digits {ms : List Nat} (h : Below 256 ms) :
    pairBytes ((ms.flatMap (digits 16 2)).map hexDigit) = ms := by
  induction ms with
  | nil => rfl
  | cons m ms ih =>
    obtain ⟨hm, hms⟩ := below_cons.mp h
    rw [List.flatMap_cons, List.map_append, digits, digits, digits, List.map_cons, List.map_cons,
      List.map_nil, List.cons_append, List.cons_append, List.nil_append, pairBytes, ih hms, pow_one,
      pow_zero, Nat.div_one, hexPair, Signer.hexValue_hexDigit (Nat.mod_lt _ (by decide)),
      Signer.hexValue_hexDigit (Nat.mod_lt _ (by decide))]
    congr 1
    simp only [Option.getD_some, UInt8.toNat_ofNat']
    omega

/-- The hex of a number is read as the number. -/
theorem toNat_hex64 {n : Nat} (h : n < 2 ^ 256) : (workHexToBytes32 (hex64 n)).toNat = n := by
  have hlength : ((digits 16 64 n).map hexDigit).length = 64 := by simp
  have hclean : (hex64 n).toList.filter (fun c => (hexValue c).isSome) =
      (digits 16 64 n).map hexDigit := by
    rw [hex64, String.toList_ofList, List.filter_eq_self]
    intro c hc
    obtain ⟨d, hd, rfl⟩ := List.mem_map.mp hc
    rw [Signer.hexValue_hexDigit (below_digits (by decide) _ _ d hd)]
    rfl
  have hpadded : paddedDigits (hex64 n) = (digits 16 64 n).map hexDigit := by
    simp only [paddedDigits, hclean, hlength, Nat.sub_self, List.drop_zero, List.replicate_zero,
      List.nil_append]
  rw [Bytes32.toNat, workHexToBytes32]
  dsimp only
  rw [hpadded, show 64 = 32 * 2 from rfl, digits_pow, show 16 ^ 2 = 256 from rfl,
    pairBytes_digits (below_digits (by decide) _ _)]
  refine value_digits_of_lt ?_
  rwa [show 256 ^ 32 = 2 ^ 256 by norm_num]

/-- `add_work` on text is the sum. -/
theorem addWork_eq (work1 work2 : String) :
    addWork work1 work2 = hex64
      (Chaintracks.addWork (workHexToBytes32 work1).toNat (workHexToBytes32 work2).toNat) := by
  obtain ⟨a, ha⟩ : ∃ a, workHexToBytes32 work1 = a := ⟨_, rfl⟩
  obtain ⟨b, hb⟩ : ∃ b, workHexToBytes32 work2 = b := ⟨_, rfl⟩
  have hsteps : ∀ x ∈ a.bytes.zip b.bytes, ∀ c, c ≤ 1 →
      (addStep x c).1 + 256 * (addStep x c).2 = x.1 + x.2 + c ∧ (addStep x c).2 ≤ 1 := by
    intro x hx c hc
    obtain ⟨hfirst, hsecond⟩ := Bytes32.zip_lt hx
    simp only [addStep]
    omega
  let sum : Bytes32 :=
    { bytes := (ripple addStep (a.bytes.zip b.bytes)).1
      length_eq := by rw [length_ripple, List.length_zip, a.length_eq, b.length_eq, Nat.min_self]
      below := below_ripple (P := (· ≤ 1)) (by decide) fun x hx c hc =>
        ⟨Nat.mod_lt _ (by decide), (hsteps x hx c hc).2⟩ }
  have hlength : a.bytes.length = b.bytes.length := by rw [a.length_eq, b.length_eq]
  have htotal : value 256 (ripple addStep (a.bytes.zip b.bytes)).1 +
      (ripple addStep (a.bytes.zip b.bytes)).2 * 256 ^ (a.bytes.zip b.bytes).length =
        value 256 ((a.bytes.zip b.bytes).map fun x => x.1 + x.2) :=
    value_ripple (P := (· ≤ 1)) (by decide) hsteps
  rw [value_zip_add hlength, List.length_zip, a.length_eq, b.length_eq, Nat.min_self,
    show 256 ^ 32 = 2 ^ 256 by norm_num] at htotal
  have htotal : sum.toNat + (ripple addStep (a.bytes.zip b.bytes)).2 * 2 ^ 256 =
    a.toNat + b.toNat := htotal
  rw [addWork, ha, hb, hexEncode_bytes sum, Chaintracks.addWork, ← htotal,
    Nat.add_mul_mod_self_right, Nat.mod_eq_of_lt sum.toNat_lt]

/-- `is_more_work` on text is the order. -/
theorem isMoreWork_eq (work1 work2 : String) :
    isMoreWork work1 work2 =
      Chaintracks.isMoreWork (workHexToBytes32 work1).toNat (workHexToBytes32 work2).toNat := by
  rw [isMoreWork, Chaintracks.isMoreWork]
  exact decide_eq_decide.mpr (cmpBytes32_spec _ _).2

/-! ## The work of a target -/

theorem Bytes32.toNat_setByte {b : Bytes32} {i : Nat} (hi : i < 32) (hzero : b.bytes.getD i 0 = 0)
    (x : Nat) : (b.setByte i x).toNat = b.toNat + x % 256 * 256 ^ (31 - i) := by
  have hset := @value_set_add 256 b.bytes i (by rw [b.length_eq]; exact hi) (x % 256)
  rw [hzero, Nat.zero_add, b.length_eq, show 32 - 1 - i = 31 - i by omega] at hset
  exact hset

theorem Bytes32.getD_setByte_ne {b : Bytes32} {i j : Nat} (hne : i ≠ j) (x : Nat) :
    (b.setByte i x).bytes.getD j 0 = b.bytes.getD j 0 := by
  rw [setByte, List.getD_eq_getElem?_getD, List.getElem?_set_ne hne, List.getD_eq_getElem?_getD]

theorem Bytes32.getD_zero (i : Nat) : Bytes32.zero.bytes.getD i 0 = 0 := by
  rw [zero, List.getD_eq_getElem?_getD, List.getElem?_replicate]
  split <;> rfl

/-- The bytes of the target are the target. -/
theorem toNat_targetBytes (bits : Nat) : (targetBytes bits).toNat = targetOf bits := by
  unfold targetBytes targetOf
  obtain ⟨e, he⟩ : ∃ e, bits / 2 ^ 24 % 2 ^ 8 = e := ⟨_, rfl⟩
  obtain ⟨m, hm⟩ : ∃ m, bits % 2 ^ 23 = m := ⟨_, rfl⟩
  have hlt : m < 2 ^ 23 := hm ▸ Nat.mod_lt _ (by decide)
  simp only [he, hm]
  by_cases hplace : 3 ≤ e ∧ e ≤ 32
  · rw [if_pos hplace, if_pos (by omega)]
    obtain ⟨k, hk⟩ : ∃ k, e - 3 = k := ⟨_, rfl⟩
    rw [Bytes32.toNat_setByte (by omega), Bytes32.toNat_setByte (by omega),
      Bytes32.toNat_setByte (by omega) (Bytes32.getD_zero _), Bytes32.toNat_zero, hk,
      show 31 - (32 - e) = k + 2 by omega, show 31 - (32 - e + 1) = k + 1 by omega,
      show 31 - (32 - e + 2) = k by omega, Nat.mod_eq_of_lt (by omega : m / 2 ^ 16 < 256)]
    · have hbytes : m = m / 2 ^ 16 * 256 * 256 + m / 2 ^ 8 % 256 * 256 + m % 256 := by omega
      conv_rhs => rw [hbytes]
      ring
    · rw [Bytes32.getD_setByte_ne (by omega), Bytes32.getD_zero]
    · rw [Bytes32.getD_setByte_ne (by omega), Bytes32.getD_setByte_ne (by omega), Bytes32.getD_zero]
  · rw [if_neg hplace, if_neg (by omega), Bytes32.toNat_zero]

theorem targetOf_lt (bits : Nat) : targetOf bits < 2 ^ 255 := by
  unfold targetOf
  dsimp only
  by_cases hplace : 3 ≤ bits / 2 ^ 24 % 2 ^ 8 ∧ bits / 2 ^ 24 % 2 ^ 8 ≤ 32
  · rw [if_pos hplace]
    calc bits % 2 ^ 23 * 256 ^ (bits / 2 ^ 24 % 2 ^ 8 - 3)
        ≤ bits % 2 ^ 23 * 256 ^ 29 :=
          Nat.mul_le_mul_left _ (Nat.pow_le_pow_right (by decide) (by omega))
      _ < 2 ^ 23 * 256 ^ 29 :=
          Nat.mul_lt_mul_of_pos_right (Nat.mod_lt _ (by decide)) (by norm_num)
      _ = 2 ^ 255 := by norm_num
  · rw [if_neg hplace]
    norm_num

theorem div128ByU128_lt (hi lo d : Nat) : (div128ByU128 hi lo d).1 < 2 ^ 128 := by
  obtain ⟨r₀, h₀⟩ : ∃ r, hi / 2 ^ 64 % d = r := ⟨_, rfl⟩
  obtain ⟨r₁, h₁⟩ : ∃ r, (r₀ * 2 ^ 64 % 2 ^ 128 + hi % 2 ^ 64) % d = r := ⟨_, rfl⟩
  obtain ⟨r₂, h₂⟩ : ∃ r, (r₁ * 2 ^ 64 % 2 ^ 128 + lo / 2 ^ 64) % d = r := ⟨_, rfl⟩
  obtain ⟨c, hc⟩ : ∃ c, (r₁ * 2 ^ 64 % 2 ^ 128 + lo / 2 ^ 64) / d = c := ⟨_, rfl⟩
  obtain ⟨e, he⟩ : ∃ e, (r₂ * 2 ^ 64 % 2 ^ 128 + lo % 2 ^ 64) / d = e := ⟨_, rfl⟩
  rewrite [div128ByU128_limbs h₀ h₁ h₂, hc, he]
  dsimp only
  omega

/-- The division by a divisor of the slow path. -/
theorem div256_slow {a b : Nat} (ha : a < 2 ^ 256) (hb : 2 ^ 128 ≤ b) :
    Chaintracks.div256 (a / 2 ^ 128) (a % 2 ^ 128) (b / 2 ^ 128) (b % 2 ^ 128) =
      (a / b / 2 ^ 128, a / b % 2 ^ 128) := by
  have hhigh : b / 2 ^ 128 ≠ 0 := (Nat.div_pos hb (by norm_num)).ne'
  have hpos : 0 < b := by omega
  rewrite [div256_of_high hhigh, Nat.div_add_mod', Nat.div_add_mod', bytes32Divmod_eq hpos ha]
  rfl

theorem div256_bounds {a : Nat} (ha : a < 2 ^ 256) (b : Nat) :
    (Chaintracks.div256 (a / 2 ^ 128) (a % 2 ^ 128) (b / 2 ^ 128) (b % 2 ^ 128)).1 < 2 ^ 128 ∧
      (Chaintracks.div256 (a / 2 ^ 128) (a % 2 ^ 128) (b / 2 ^ 128) (b % 2 ^ 128)).2 < 2 ^ 128 := by
  rcases Nat.lt_or_ge b (2 ^ 128) with hfast | hslow
  · rewrite [Nat.div_eq_of_lt hfast, div256_of_low]
    exact ⟨div128ByU128_lt _ _ _, div128ByU128_lt _ _ _⟩
  · rewrite [div256_slow ha hslow]
    dsimp only
    have hlt : a / b < 2 ^ 256 := Nat.lt_of_le_of_lt (Nat.div_le_self _ _) ha
    omega

/-- The division of limbs and the division on numbers. -/
theorem div256_limbs {a b : Nat} (ha : a < 2 ^ 256) (hb : b < 2 ^ 256) (hpos : 0 < b) :
    div256 (a / 2 ^ 128) (a % 2 ^ 128) (b / 2 ^ 128) (b % 2 ^ 128) =
      some (Chaintracks.div256 (a / 2 ^ 128) (a % 2 ^ 128) (b / 2 ^ 128) (b % 2 ^ 128)) :=
  div256_eq (by omega) (Nat.mod_lt _ (by norm_num)) (by omega) (Nat.mod_lt _ (by norm_num))
    (by omega)

theorem calculateWork_number (bits : Nat) :
    Chaintracks.calculateWork bits =
      ((Chaintracks.div256 ((2 ^ 256 - 1 - targetOf bits) / 2 ^ 128)
          ((2 ^ 256 - 1 - targetOf bits) % 2 ^ 128) ((targetOf bits + 1) / 2 ^ 128)
          ((targetOf bits + 1) % 2 ^ 128)).1 * 2 ^ 128 +
        (Chaintracks.div256 ((2 ^ 256 - 1 - targetOf bits) / 2 ^ 128)
          ((2 ^ 256 - 1 - targetOf bits) % 2 ^ 128) ((targetOf bits + 1) / 2 ^ 128)
          ((targetOf bits + 1) % 2 ^ 128)).2 + 1) % 2 ^ 256 := by
  rewrite [Chaintracks.calculateWork]
  dsimp only

/-- `calculate_work` on text is the work on numbers. -/
theorem calculateWork_eq (bits : Nat) :
    calculateWork bits = some (hex64 (Chaintracks.calculateWork bits)) := by
  obtain ⟨t, ht⟩ : ∃ t, targetOf bits = t := ⟨_, rfl⟩
  have hlt : t < 2 ^ 255 := ht ▸ targetOf_lt bits
  obtain ⟨a, ha⟩ : ∃ a, 2 ^ 256 - 1 - t = a := ⟨_, rfl⟩
  have hnum : calculateWork bits = (div256 (a / 2 ^ 128) (a % 2 ^ 128) ((t + 1) / 2 ^ 128)
      ((t + 1) % 2 ^ 128)).map fun q =>
        hex16 ((q.1 + (q.2 + 1) / 2 ^ 128) % 2 ^ 128 / 2 ^ 64) ++
          hex16 ((q.1 + (q.2 + 1) / 2 ^ 128) % 2 ^ 128 % 2 ^ 64) ++
          hex16 ((q.2 + 1) % 2 ^ 128 / 2 ^ 64) ++ hex16 ((q.2 + 1) % 2 ^ 128 % 2 ^ 64) := by
    rewrite [calculateWork, bytes32ToU128pair_eq, toNat_targetBytes, ht]
    dsimp only
    rw [show 2 ^ 128 - 1 - t / 2 ^ 128 = a / 2 ^ 128 by omega,
      show 2 ^ 128 - 1 - t % 2 ^ 128 = a % 2 ^ 128 by omega,
      show (t / 2 ^ 128 + (t % 2 ^ 128 + 1) / 2 ^ 128) % 2 ^ 128 = (t + 1) / 2 ^ 128 by omega,
      show (t % 2 ^ 128 + 1) % 2 ^ 128 = (t + 1) % 2 ^ 128 by omega]
  have hbounds := div256_bounds (by omega : a < 2 ^ 256) (t + 1)
  obtain ⟨⟨hi, lo⟩, hquotient⟩ : ∃ p, Chaintracks.div256 (a / 2 ^ 128) (a % 2 ^ 128)
    ((t + 1) / 2 ^ 128) ((t + 1) % 2 ^ 128) = p := ⟨_, rfl⟩
  rewrite [hquotient] at hbounds
  obtain ⟨hhi, hlo⟩ := hbounds
  rewrite [hnum, calculateWork_number, ht, ha, div256_limbs (by omega) (by omega) (by omega), hquotient,
    Option.map_some]
  dsimp only at hhi hlo ⊢
  rewrite [hex16_append (Nat.mod_lt _ (by norm_num)) (by omega) (Nat.mod_lt _ (by norm_num))]
  congr 2
  omega

/-! ## Exactness -/

/-- Every numerator divided by `b` has its whole quotient. -/
def DividesExactly (b : Nat) : Prop :=
  ∀ a < 2 ^ 256, div256 (a / 2 ^ 128) (a % 2 ^ 128) (b / 2 ^ 128) (b % 2 ^ 128) =
    some (a / b / 2 ^ 128, a / b % 2 ^ 128)

/-- A compact difficulty: its exponent is 3 to 32. -/
def IsCompact (bits : Nat) : Prop := bits < 2 ^ 32 ∧ 3 ≤ bits / 2 ^ 24 ∧ bits / 2 ^ 24 ≤ 32

/-- The target of a compact difficulty. -/
def target (bits : Nat) : Nat := bits % 2 ^ 23 * 256 ^ (bits / 2 ^ 24 - 3)

/-- The work of a target: the hashes that one is expected to take. -/
def workOf (target : Nat) : Nat := (2 ^ 256 - 1 - target) / (target + 1) + 1

theorem targetOf_compact {bits : Nat} (h : IsCompact bits) : targetOf bits = target bits := by
  obtain ⟨hbits, hthree, hmax⟩ := h
  have hexponent : bits / 2 ^ 24 % 2 ^ 8 = bits / 2 ^ 24 := by omega
  rw [targetOf, target, hexponent]
  exact if_pos ⟨hthree, hmax⟩

theorem target_lt {bits : Nat} (h : IsCompact bits) : target bits < 2 ^ 255 :=
  targetOf_compact h ▸ targetOf_lt bits

/-- The number before the last of `2 ^ 128` is no target: its lowest bytes are not empty. -/
theorem target_ne {bits : Nat} : target bits + 1 ≠ 2 ^ 128 := by
  intro h
  unfold target at h
  cases hplace : bits / 2 ^ 24 - 3 with
  | zero =>
    rw [hplace, pow_zero, Nat.mul_one] at h
    have := Nat.mod_lt bits (show 0 < 2 ^ 23 by norm_num)
    omega
  | succ k =>
    rw [hplace, pow_succ 256, ← Nat.mul_assoc] at h
    omega

theorem workOf_lt {t : Nat} (hpos : 0 < t) : workOf t < 2 ^ 256 := by
  have hhalf : (2 ^ 256 - 1 - t) / (t + 1) ≤ (2 ^ 256 - 1 - t) / 2 :=
    Nat.div_le_div_left (by omega) (by decide)
  unfold workOf
  omega

/-- A divisor of the slow path divides exactly, and no other one divides itself. -/
theorem dividesExactly_iff {b : Nat} (hpos : 0 < b) (hlt : b < 2 ^ 256) :
    DividesExactly b ↔ 2 ^ 128 ≤ b := by
  constructor
  · intro h
    by_contra hsmall
    have hsmall : b < 2 ^ 128 := Nat.lt_of_not_le hsmall
    have hself := h b hlt
    rewrite [div256_limbs hlt hlt hpos, Nat.div_self hpos, Nat.div_eq_of_lt hsmall,
      Nat.mod_eq_of_lt hsmall, div256_of_low] at hself
    have hzero : div128ByU128 0 0 b = (0, 0) := by
      rewrite [div128ByU128_limbs (Eq.refl (0 / 2 ^ 64 % b)) (Eq.refl _) (Eq.refl _)]
      simp
    have hnone : (div128ByU128 b 0 b).1 = 0 := by
      have hfirst : b / 2 ^ 64 % b = b / 2 ^ 64 :=
        Nat.mod_eq_of_lt (Nat.div_lt_self hpos (by norm_num))
      have hsecond : (b / 2 ^ 64 * 2 ^ 64 % 2 ^ 128 + b % 2 ^ 64) % b = 0 := by
        rw [Nat.mod_eq_of_lt (by omega : b / 2 ^ 64 * 2 ^ 64 < 2 ^ 128), Nat.div_add_mod', Nat.mod_self]
      rewrite [div128ByU128_limbs hfirst hsecond (Eq.refl _)]
      simp
    rewrite [hzero] at hself
    dsimp only at hself
    rewrite [hnone] at hself
    revert hself
    decide
  · intro hlarge a ha
    rw [div256_limbs ha hlt hpos, div256_slow ha hlarge]

/-- The work of a compact difficulty is exact when its target is not in the fast path. -/
theorem calculateWork_iff {bits : Nat} (h : IsCompact bits) (hpos : 0 < target bits) :
    calculateWork bits = some (hex64 (workOf (target bits))) ↔ 2 ^ 128 ≤ target bits := by
  have hlt := target_lt h
  have hne := @target_ne bits
  have hnumber := calculateWork_number bits
  rw [targetOf_compact h] at hnumber
  obtain ⟨t, ht⟩ : ∃ t, target bits = t := ⟨_, rfl⟩
  rw [ht] at hpos hlt hne hnumber ⊢
  obtain ⟨a, ha⟩ : ∃ a, 2 ^ 256 - 1 - t = a := ⟨_, rfl⟩
  rw [ha] at hnumber
  have hwork : workOf t = a / (t + 1) + 1 := by rw [workOf, ha]
  have hworklt := workOf_lt hpos
  rw [calculateWork_eq]
  constructor
  · intro heq
    by_contra hsmall
    have hnumbers : Chaintracks.calculateWork bits = workOf t := by
      have htexts := congrArg (fun s => (workHexToBytes32 s).toNat) (Option.some.inj heq)
      rwa [toNat_hex64 hworklt, toNat_hex64 (by rw [hnumber]; exact Nat.mod_lt _ (by norm_num))] at htexts
    have hbounds := div256_bounds (by omega : a < 2 ^ 256) (t + 1)
    have hfast : t + 1 < 2 ^ 128 := by omega
    rw [Nat.div_eq_of_lt hfast, Nat.mod_eq_of_lt hfast, div256_of_low] at hnumber hbounds
    have hones : a / 2 ^ 128 + 1 = 2 ^ 128 := by omega
    have hwrong := fast_high_ne hones (by omega) hfast
    have hright : a / (t + 1) / 2 ^ 128 = a / 2 ^ 128 / (t + 1) := by
      rw [Nat.div_div_eq_div_mul, Nat.div_div_eq_div_mul, Nat.mul_comm]
    dsimp only at hnumber hbounds
    obtain ⟨hhi, hlo⟩ := hbounds
    rw [hnumbers, hwork] at hnumber
    rw [← hright] at hwrong
    obtain ⟨total, htotal⟩ : ∃ total, (div128ByU128 (a / 2 ^ 128) 0 (t + 1)).1 * 2 ^ 128 +
      (div128ByU128 (a % 2 ^ 128) (div128ByU128 (a / 2 ^ 128) 0 (t + 1)).2 (t + 1)).1 + 1 = total :=
      ⟨_, rfl⟩
    rw [htotal] at hnumber
    rcases Nat.lt_or_ge total (2 ^ 256) with hfits | hfull
    · rw [Nat.mod_eq_of_lt hfits] at hnumber
      omega
    · have hmax : total ≤ 2 ^ 256 := by omega
      rw [Nat.le_antisymm hmax hfull, Nat.mod_self] at hnumber
      exact absurd hnumber (Nat.succ_ne_zero _)
  · intro hlarge
    have hslow : 2 ^ 128 ≤ t + 1 := by omega
    rewrite [div256_slow (by omega) hslow] at hnumber
    dsimp only at hnumber
    rw [Nat.div_add_mod', ← hwork, Nat.mod_eq_of_lt hworklt] at hnumber
    rw [hnumber]

/-- Numbers and their texts: the order and the sum. -/
theorem isMoreWork_hex64 {m n : Nat} (hm : m < 2 ^ 256) (hn : n < 2 ^ 256) :
    isMoreWork (hex64 m) (hex64 n) = true ↔ n < m := by
  rw [isMoreWork_eq, toNat_hex64 hm, toNat_hex64 hn, isMoreWork_iff]

theorem addWork_hex64 {m n : Nat} (hm : m < 2 ^ 256) (hn : n < 2 ^ 256) :
    addWork (hex64 m) (hex64 n) = hex64 ((m + n) % 2 ^ 256) := by
  rw [addWork_eq, toNat_hex64 hm, toNat_hex64 hn, Chaintracks.addWork]

/-- A smaller target takes at least as much work. -/
theorem workOf_antitone {t t' : Nat} (h : t ≤ t') : workOf t' ≤ workOf t :=
  Nat.succ_le_succ (Nat.div_le_div (by omega) (by omega) (by omega))

/-- Division is exact for the divisors from `2 ^ 128` on, and the work is that of the target for the
targets from there on, of which a smaller one never has less work. Orders and sums are always those
of the numbers. -/
theorem work_exact_iff (b bits bits' m n : Nat) (work work' : String) :
    (0 < b → b < 2 ^ 256 → (DividesExactly b ↔ 2 ^ 128 ≤ b)) ∧
      (IsCompact bits → 0 < target bits →
        (calculateWork bits = some (hex64 (workOf (target bits))) ↔ 2 ^ 128 ≤ target bits)) ∧
      (IsCompact bits → IsCompact bits' → 2 ^ 128 ≤ target bits → target bits < target bits' →
        calculateWork bits = some work → calculateWork bits' = some work' →
          isMoreWork work' work = false) ∧
      (m < 2 ^ 256 → n < 2 ^ 256 → (isMoreWork (hex64 m) (hex64 n) = true ↔ n < m) ∧
        addWork (hex64 m) (hex64 n) = hex64 ((m + n) % 2 ^ 256)) := by
  refine ⟨dividesExactly_iff, calculateWork_iff, ?_, fun hm hn =>
    ⟨isMoreWork_hex64 hm hn, addWork_hex64 hm hn⟩⟩
  intro hcompact hcompact' hlarge hless hwork hwork'
  have hpos : 0 < target bits := by omega
  have hpos' : 0 < target bits' := by omega
  have htext := (calculateWork_iff hcompact hpos).mpr hlarge
  have htext' := (calculateWork_iff hcompact' hpos').mpr (by omega)
  cases hwork.symm.trans htext
  cases hwork'.symm.trans htext'
  rw [Bool.eq_false_iff, ne_eq, isMoreWork_hex64 (workOf_lt hpos') (workOf_lt hpos)]
  have := workOf_antitone hless.le
  omega

/-- The first main chain difficulty. -/
theorem work_exact_difficultyOne :
    DividesExactly (2 ^ 128) ∧ calculateWork 0x1d00ffff = some (hex64 (workOf (0xffff * 256 ^ 26))) := by
  have hexact := work_exact_iff (2 ^ 128) 0x1d00ffff 0 0 0 "" ""
  exact ⟨(hexact.1 (by decide) (by decide)).mpr (by decide),
    (hexact.2.1 (by unfold IsCompact; decide) (by decide)).mpr (by decide)⟩

/-- One divided by one is nothing. -/
theorem work_not_exact :
    ¬((∀ b, 0 < b → b < 2 ^ 256 → DividesExactly b) ∧
      ∀ bits, IsCompact bits → 0 < target bits →
        calculateWork bits = some (hex64 (workOf (target bits)))) := by
  intro h
  have hone := h.1 1 (by decide) (by decide) 1 (by decide)
  revert hone
  decide

end WalletToolbox.Chaintracks.Work
