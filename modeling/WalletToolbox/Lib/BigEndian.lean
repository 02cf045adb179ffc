import Mathlib.Data.Nat.Digits.Lemmas
import Mathlib.Tactic.Ring

/-! # Big-endian digits

Numbers as lists of digits over a base, the highest digit first, and the loops that run over such
lists from the lowest digit with a carry.

- `value_ripple`: a loop that keeps what a place holds, in its digit and in its carry, sums the places.
- `value_ripple_borrow`: a loop that borrows from the next place subtracts.
- `value_cons_lt_cons`: the first difference decides an order.
- `value_div_mod`: a digit is read off the number. -/

namespace WalletToolbox.Lib.BigEndian

variable {base : Nat}

/-- The number of a list of digits, the highest first. -/
def value (base : Nat) (digits : List Nat) : Nat := Nat.ofDigits base digits.reverse

/-- The lowest digits of a number, as many as asked for. -/
def digits (base : Nat) : Nat → Nat → List Nat
  | 0, _ => []
  | width + 1, n => n / base ^ width % base :: digits base width n

/-- Every digit is one. -/
def Below (base : Nat) (digits : List Nat) : Prop := ∀ d ∈ digits, d < base

/-! ## The number of a list -/

@[simp] theorem value_nil : value base [] = 0 := rfl

@[simp] theorem value_cons (d : Nat) (ds : List Nat) :
    value base (d :: ds) = d * base ^ ds.length + value base ds := by
  simp only [value, List.reverse_cons, Nat.ofDigits_append, Nat.ofDigits_singleton,
    List.length_reverse]
  ring

theorem value_append (ds es : List Nat) :
    value base (ds ++ es) = value base ds * base ^ es.length + value base es := by
  simp only [value, List.reverse_append, Nat.ofDigits_append, List.length_reverse]
  ring

theorem value_replicate_zero (n : Nat) : value base (List.replicate n 0) = 0 := by
  induction n with
  | zero => rfl
  | succ n ih => simp [List.replicate_succ, ih]

theorem value_map_mul (k : Nat) (ds : List Nat) :
    value base (ds.map (· * k)) = value base ds * k := by
  induction ds with
  | nil => simp
  | cons d ds ih =>
    rw [List.map_cons, value_cons, value_cons, ih, List.length_map]
    ring

/-- Digits are added place by place, whether or not the sums are digits. -/
theorem value_zip_add {ds es : List Nat} (h : ds.length = es.length) :
    value base ((ds.zip es).map fun x => x.1 + x.2) = value base ds + value base es := by
  induction ds generalizing es with
  | nil =>
    cases es with
    | nil => rfl
    | cons e es => simp at h
  | cons d ds ih =>
    cases es with
    | nil => simp at h
    | cons e es =>
      have hrest : ds.length = es.length := by simpa using h
      rw [List.zip_cons_cons, List.map_cons, value_cons, value_cons, value_cons, ih hrest,
        List.length_map, List.length_zip, hrest, Nat.min_self]
      ring

@[simp] theorem below_cons {d : Nat} {ds : List Nat} :
    Below base (d :: ds) ↔ d < base ∧ Below base ds :=
  List.forall_mem_cons

theorem Below.append {ds es : List Nat} (hds : Below base ds) (hes : Below base es) :
    Below base (ds ++ es) :=
  fun _ hd => (List.mem_append.mp hd).elim (hds _) (hes _)

theorem Below.drop {ds : List Nat} (h : Below base ds) (n : Nat) : Below base (ds.drop n) :=
  fun d hd => h d (List.mem_of_mem_drop hd)

theorem value_lt {ds : List Nat} (h : Below base ds) : value base ds < base ^ ds.length := by
  induction ds with
  | nil => simp
  | cons d ds ih =>
    obtain ⟨hd, hds⟩ := below_cons.mp h
    have hrest := ih hds
    have hplace : (d + 1) * base ^ ds.length ≤ base * base ^ ds.length :=
      Nat.mul_le_mul_right _ hd
    rw [value_cons, List.length_cons, pow_succ']
    rw [Nat.add_mul, Nat.one_mul] at hplace
    omega

/-- A longer list splits at any place. -/
theorem value_take_drop (ds : List Nat) (n : Nat) :
    value base (ds.take n) * base ^ (ds.length - n) + value base (ds.drop n) = value base ds := by
  conv_rhs => rw [← List.take_append_drop n ds]
  rw [value_append, List.length_drop]

/-! ## The digits of a number -/

@[simp] theorem length_digits (width n : Nat) : (digits base width n).length = width := by
  induction width with
  | zero => rfl
  | succ width ih => simp [digits, ih]

theorem below_digits (hbase : 0 < base) (width n : Nat) : Below base (digits base width n) := by
  induction width with
  | zero => simp [digits, Below]
  | succ width ih => exact below_cons.mpr ⟨Nat.mod_lt _ hbase, ih⟩

theorem value_digits (width n : Nat) : value base (digits base width n) = n % base ^ width := by
  induction width with
  | zero => simp [digits, Nat.mod_one]
  | succ width ih =>
    rw [digits, value_cons, length_digits, ih, pow_succ, Nat.mod_mul, Nat.mul_comm, Nat.add_comm]

theorem value_digits_of_lt {width n : Nat} (h : n < base ^ width) :
    value base (digits base width n) = n := by
  rw [value_digits, Nat.mod_eq_of_lt h]

/-- What stands above the lowest digits does not show in them. -/
theorem digits_add_mul {width m : Nat} (k n : Nat) (h : width ≤ m) :
    digits base width (n + base ^ m * k) = digits base width n := by
  induction width with
  | zero => rfl
  | succ width ih =>
    have hsplit : base ^ m = base ^ width * (base * base ^ (m - width - 1)) := by
      rw [← pow_succ', ← pow_add]
      congr 1
      omega
    rw [digits, digits, ih (by omega)]
    congr 1
    rcases Nat.eq_zero_or_pos (base ^ width) with hzero | hpos
    · simp [hzero]
    · rw [hsplit, Nat.mul_assoc, Nat.add_mul_div_left _ _ hpos, Nat.mul_assoc,
        Nat.add_mul_mod_self_left]

/-- A list of digits is the digits of its number. -/
theorem digits_value {ds : List Nat} (h : Below base ds) :
    digits base ds.length (value base ds) = ds := by
  induction ds with
  | nil => rfl
  | cons d ds ih =>
    obtain ⟨hd, hds⟩ := below_cons.mp h
    have hlt := value_lt hds
    have hpos : 0 < base ^ ds.length := by omega
    rw [List.length_cons, digits, value_cons, Nat.add_comm (d * _), Nat.mul_comm d,
      digits_add_mul d _ (le_refl _), ih hds, Nat.add_mul_div_left _ _ hpos,
      Nat.div_eq_of_lt hlt, Nat.zero_add, Nat.mod_eq_of_lt hd]

theorem digits_mod (width n : Nat) : digits base width (n % base ^ width) = digits base width n := by
  conv_rhs => rw [← Nat.mod_add_div n (base ^ width)]
  rw [digits_add_mul _ _ (le_refl _)]

/-- The digits above a place and those below it. -/
theorem digits_split (high low n : Nat) :
    digits base (high + low) n = digits base high (n / base ^ low) ++ digits base low n := by
  induction high with
  | zero => rw [Nat.zero_add, digits, List.nil_append]
  | succ high ih =>
    rw [Nat.succ_add, digits, ih, digits, List.cons_append, Nat.div_div_eq_div_mul, ← pow_add,
      Nat.add_comm low]

theorem digits_mul_add {low y : Nat} (high x : Nat) (hy : y < base ^ low) :
    digits base (high + low) (x * base ^ low + y) = digits base high x ++ digits base low y := by
  have hpos : 0 < base ^ low := by omega
  rw [digits_split, Nat.mul_comm, Nat.mul_add_div hpos, Nat.div_eq_of_lt hy, Nat.add_zero,
    Nat.add_comm (base ^ low * x), digits_add_mul _ _ (le_refl _)]

/-- A digit over a power of the base is several digits. -/
theorem digits_pow (width places n : Nat) :
    digits base (width * places) n = (digits (base ^ places) width n).flatMap (digits base places) := by
  induction width with
  | zero => rw [Nat.zero_mul, digits, digits, List.flatMap_nil]
  | succ width ih =>
    rw [Nat.succ_mul, Nat.add_comm, digits_split, ih, digits, List.flatMap_cons, digits_mod, ← pow_mul,
      Nat.mul_comm places]

/-- A digit is read off the number. -/
theorem value_div_mod {ds : List Nat} (h : Below base ds) {i : Nat} (hi : i < ds.length) :
    value base ds / base ^ (ds.length - 1 - i) % base = ds.getD i 0 := by
  induction ds generalizing i with
  | nil => simp at hi
  | cons d ds ih =>
    obtain ⟨hd, hds⟩ := below_cons.mp h
    have hlt := value_lt hds
    have hpos : 0 < base ^ ds.length := by omega
    cases i with
    | zero =>
      rw [value_cons, List.length_cons, Nat.add_sub_cancel, Nat.sub_zero, Nat.mul_comm,
        Nat.mul_add_div hpos, Nat.div_eq_of_lt hlt, Nat.add_zero, Nat.mod_eq_of_lt hd]
      rfl
    | succ i =>
      have hi' : i < ds.length := by simpa using hi
      have hsplit : base ^ ds.length = base ^ (ds.length - 1 - i) * (base * base ^ i) := by
        rw [← pow_succ', ← pow_add]
        congr 1
        omega
      have hwidth : ds.length + 1 - 1 - (i + 1) = ds.length - 1 - i := by omega
      have hplace : 0 < base ^ (ds.length - 1 - i) :=
        Nat.pos_of_ne_zero fun hzero => by simp [hsplit, hzero] at hpos
      rw [value_cons, List.length_cons, hwidth, List.getD_cons_succ, ← ih hds hi', hsplit,
        show d * (base ^ (ds.length - 1 - i) * (base * base ^ i)) =
          base ^ (ds.length - 1 - i) * (base * (d * base ^ i)) by ring,
        Nat.mul_add_div hplace, Nat.mul_add_mod]

/-- Setting a digit changes the number by what the digit changes, at its place. -/
theorem value_set_add {ds : List Nat} {i : Nat} (hi : i < ds.length) (more : Nat) :
    value base (ds.set i (ds.getD i 0 + more)) =
      value base ds + more * base ^ (ds.length - 1 - i) := by
  induction ds generalizing i with
  | nil => simp at hi
  | cons d ds ih =>
    cases i with
    | zero => simp; ring
    | succ i =>
      have hi' : i < ds.length := by simpa using hi
      have hwidth : ds.length + 1 - 1 - (i + 1) = ds.length - 1 - i := by omega
      rw [List.set_cons_succ, List.getD_cons_succ, value_cons, value_cons, ih hi',
        List.length_set, List.length_cons, hwidth]
      ring

/-! ## The order -/

/-- The first difference decides. -/
theorem value_cons_lt_cons {d e : Nat} {ds es : List Nat} (hds : Below base ds)
    (hes : Below base es) (hlength : ds.length = es.length) :
    value base (d :: ds) < value base (e :: es) ↔ d < e ∨ d = e ∧ value base ds < value base es := by
  have hd := value_lt hds
  have he := value_lt hes
  rw [value_cons, value_cons, hlength]
  rw [hlength] at hd
  have hstep : ∀ {a b : Nat}, a < b → a * base ^ es.length + base ^ es.length ≤ b * base ^ es.length :=
    fun {a b} hab => by
      rw [← Nat.succ_mul]
      exact Nat.mul_le_mul_right _ hab
  rcases Nat.lt_trichotomy d e with hlt | rfl | hgt
  · have := hstep hlt
    omega
  · omega
  · have := hstep hgt
    omega

/-! ## Loops with a carry -/

variable {δ : Type}

/-- A loop from the lowest place: `step` makes a digit and a carry from what stands at a place and
from the carry of the place below. -/
def ripple (step : δ → Nat → Nat × Nat) (xs : List δ) : List Nat × Nat :=
  xs.foldr (fun x r => ((step x r.2).1 :: r.1, (step x r.2).2)) ([], 0)

@[simp] theorem ripple_nil (step : δ → Nat → Nat × Nat) : ripple step [] = ([], 0) := rfl

@[simp] theorem ripple_cons (step : δ → Nat → Nat × Nat) (x : δ) (xs : List δ) :
    ripple step (x :: xs) =
      ((step x (ripple step xs).2).1 :: (ripple step xs).1, (step x (ripple step xs).2).2) := rfl

variable {step : δ → Nat → Nat × Nat} {xs : List δ}

@[simp] theorem length_ripple (step : δ → Nat → Nat × Nat) (xs : List δ) :
    (ripple step xs).1.length = xs.length := by
  induction xs with
  | nil => rfl
  | cons x xs ih => simp [ih]

/-- What holds of the carry of every step holds of the last one. -/
theorem ripple_carry {P : Nat → Prop} (hzero : P 0)
    (hstep : ∀ x ∈ xs, ∀ c, P c → P (step x c).2) : P (ripple step xs).2 := by
  induction xs with
  | nil => exact hzero
  | cons x xs ih =>
    exact hstep x List.mem_cons_self _ (ih fun y hy => hstep y (List.mem_cons_of_mem _ hy))

theorem below_ripple {P : Nat → Prop} (hzero : P 0)
    (hstep : ∀ x ∈ xs, ∀ c, P c → (step x c).1 < base ∧ P (step x c).2) :
    Below base (ripple step xs).1 := by
  induction xs with
  | nil => simp [Below]
  | cons x xs ih =>
    have hrest := fun y hy => hstep y (List.mem_cons_of_mem x hy)
    have hcarry := ripple_carry hzero fun y hy c hc => (hrest y hy c hc).2
    exact below_cons.mpr ⟨(hstep x List.mem_cons_self _ hcarry).1, ih hrest⟩

/-- A loop whose steps keep what stands at a place, in the digit and in the carry, has the sum of
the places in its digits and its last carry. -/
theorem value_ripple {f : δ → Nat} {P : Nat → Prop} (hzero : P 0)
    (hstep : ∀ x ∈ xs, ∀ c, P c → (step x c).1 + base * (step x c).2 = f x + c ∧ P (step x c).2) :
    value base (ripple step xs).1 + (ripple step xs).2 * base ^ xs.length =
      value base (xs.map f) := by
  induction xs with
  | nil => rfl
  | cons x xs ih =>
    have hrest := fun y hy => hstep y (List.mem_cons_of_mem x hy)
    have hcarry := ripple_carry hzero fun y hy c hc => (hrest y hy c hc).2
    have hplace := (hstep x List.mem_cons_self _ hcarry).1
    have ih := ih hrest
    rw [ripple_cons, value_cons, length_ripple, List.map_cons, value_cons, List.length_map, ← ih,
      List.length_cons, pow_succ]
    calc (step x (ripple step xs).2).1 * base ^ xs.length + value base (ripple step xs).1 +
          (step x (ripple step xs).2).2 * (base ^ xs.length * base)
        = ((step x (ripple step xs).2).1 + base * (step x (ripple step xs).2).2) *
            base ^ xs.length + value base (ripple step xs).1 := by ring
      _ = f x * base ^ xs.length +
          (value base (ripple step xs).1 + (ripple step xs).2 * base ^ xs.length) := by
        rw [hplace]
        ring

/-- A loop that takes from every place, and borrows from the next one where that is too little. -/
theorem value_ripple_borrow {f g : δ → Nat} {P : Nat → Prop} (hzero : P 0)
    (hstep : ∀ x ∈ xs, ∀ c, P c →
      (step x c).1 + g x + c = f x + base * (step x c).2 ∧ P (step x c).2) :
    value base (ripple step xs).1 + value base (xs.map g) =
      value base (xs.map f) + (ripple step xs).2 * base ^ xs.length := by
  induction xs with
  | nil => rfl
  | cons x xs ih =>
    have hrest := fun y hy => hstep y (List.mem_cons_of_mem x hy)
    have hcarry := ripple_carry hzero fun y hy c hc => (hrest y hy c hc).2
    have hplace := (hstep x List.mem_cons_self _ hcarry).1
    have ih := ih hrest
    have hplaces := congrArg (· * base ^ xs.length) hplace
    simp only [Nat.add_mul] at hplaces
    simp only [ripple_cons, value_cons, length_ripple, List.map_cons, List.length_map,
      List.length_cons, pow_succ]
    have hborrow : (step x (ripple step xs).2).2 * (base ^ xs.length * base) =
        base * (step x (ripple step xs).2).2 * base ^ xs.length := by ring
    omega

end WalletToolbox.Lib.BigEndian
