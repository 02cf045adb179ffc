import Mathlib.Tactic.Common

/-! # A program and a stricter copy of it

Two programs that fail or answer are the same up to the texts of their failures when their answers
are the same.
`Guards c p q` says that `q` does this where `c` holds and fails elsewhere.
It goes through sequences and loops, and so does a condition for success. -/

namespace WalletToolbox.Lib

variable {ε α β γ : Type}

/-- `q` answers what `p` answers if `c` holds, and fails otherwise. -/
structure Guards (c : Prop) (p q : Except ε α) : Prop where
  same : c → q.toOption = p.toOption
  fails : ¬c → q.toOption = none

theorem toOption_bind (p : Except ε α) (f : α → Except ε β) :
    (p >>= f).toOption = p.toOption.bind fun a => (f a).toOption := by
  cases p <;> rfl

theorem bind_ok_iff {p : Except ε α} {f : α → Except ε β} {b : β} :
    (p >>= f) = .ok b ↔ ∃ a, p = .ok a ∧ f a = .ok b := by
  cases p with
  | error e => simp [bind, Except.bind]
  | ok a => simp [bind, Except.bind]

theorem toOption_eq_some {p : Except ε α} {a : α} : p.toOption = some a ↔ p = .ok a := by
  cases p <;> simp [Except.toOption]

theorem isOk_iff_exists {p : Except ε α} : p.isOk = true ↔ ∃ a, p = .ok a := by
  cases p <;> simp [Except.isOk, Except.toBool]

theorem toOption_eq_none {p : Except ε α} : p.toOption = none ↔ ¬p.isOk = true := by
  cases p <;> simp [Except.toOption, Except.isOk, Except.toBool]

section Guards

variable {c d : Prop} {p q : Except ε α} {f g : α → Except ε β}

/-- Two programs that answer the same guard everything. -/
theorem Guards.of_same (hc : c) (h : q.toOption = p.toOption) : Guards c p q :=
  ⟨fun _ => h, fun hnot => absurd hc hnot⟩

theorem Guards.congr (h : Guards c p q) (hcd : c ↔ d) : Guards d p q :=
  ⟨fun hd => h.same (hcd.mpr hd), fun hnot => h.fails fun hc => hnot (hcd.mp hc)⟩

/-- The two agree where the condition holds, and where the lenient one fails as well. -/
theorem Guards.agree_iff (h : Guards c p q) : p.toOption = q.toOption ↔ (p.isOk = true → c) := by
  constructor
  · intro hsame hok
    by_contra hnot
    rw [h.fails hnot] at hsame
    exact toOption_eq_none.mp hsame hok
  · intro hc
    by_cases hok : p.isOk = true
    · exact (h.same (hc hok)).symm
    · by_cases hcond : c
      · exact (h.same hcond).symm
      · rw [h.fails hcond, toOption_eq_none.mpr hok]

theorem Guards.bind (h : Guards c p q) (hrest : ∀ a, p = .ok a → Guards d (f a) (g a)) :
    Guards (c ∧ d) (p >>= f) (q >>= g) := by
  constructor
  · rintro ⟨hc, hd⟩
    rw [toOption_bind, toOption_bind, h.same hc]
    cases p with
    | error e => rfl
    | ok a => exact (hrest a rfl).same hd
  · intro hnot
    rw [toOption_bind]
    by_cases hc : c
    · rw [h.same hc]
      cases p with
      | error e => rfl
      | ok a => exact (hrest a rfl).fails fun hd => hnot ⟨hc, hd⟩
    · rw [h.fails hc, Option.bind_none]

/-- What both programs do afterwards. -/
theorem Guards.andThen (h : Guards c p q) (f : α → Except ε β) : Guards c (p >>= f) (q >>= f) :=
  (h.bind fun _ _ => .of_same trivial rfl).congr (and_iff_left trivial)

/-- A step that both programs make. -/
theorem Guards.step (h : ∀ a, p = .ok a → Guards c (f a) (g a)) : Guards c (p >>= f) (p >>= g) :=
  ((Guards.of_same trivial rfl).bind h).congr (and_iff_right trivial)

theorem Guards.foldlM {xs : List γ} {f g : α → γ → Except ε α} {c : γ → Prop}
    (h : ∀ a, ∀ x ∈ xs, Guards (c x) (f a x) (g a x)) (a : α) :
    Guards (∀ x ∈ xs, c x) (xs.foldlM f a) (xs.foldlM g a) := by
  induction xs generalizing a with
  | nil => exact .of_same nofun rfl
  | cons x xs ih =>
    rw [List.foldlM_cons, List.foldlM_cons]
    refine ((h a x List.mem_cons_self).bind fun a' _ => ?_).congr List.forall_mem_cons.symm
    exact ih (fun a y hy => h a y (List.mem_cons_of_mem _ hy)) a'

end Guards

/-! ## When a program succeeds -/

theorem isOk_bind {p : Except ε α} {f : α → Except ε β} :
    (p >>= f).isOk = true ↔ ∃ a, p = .ok a ∧ (f a).isOk = true := by
  cases p with
  | error e => simp [bind, Except.bind, Except.isOk, Except.toBool]
  | ok a => simp [bind, Except.bind]

/-- What cannot fail afterwards does not matter. -/
theorem isOk_bind_total {p : Except ε α} {f : α → Except ε β}
    (h : ∀ a, p = .ok a → (f a).isOk = true) : (p >>= f).isOk = true ↔ p.isOk = true := by
  rw [isOk_bind, isOk_iff_exists]
  exact ⟨fun ⟨a, ha, _⟩ => ⟨a, ha⟩, fun ⟨a, ha⟩ => ⟨a, ha, h a ha⟩⟩

/-- A loop whose steps keep an invariant and succeed on the items that satisfy a condition succeeds
when all of them do. -/
theorem isOk_foldlM {f : α → γ → Except ε α} {I : α → Prop} {c : γ → Prop} {xs : List γ}
    (hkeep : ∀ a, I a → ∀ x a', f a x = .ok a' → I a')
    (hstep : ∀ a, I a → ∀ x ∈ xs, ((f a x).isOk = true ↔ c x)) {a : α} (ha : I a) :
    (xs.foldlM f a).isOk = true ↔ ∀ x ∈ xs, c x := by
  induction xs generalizing a with
  | nil => exact ⟨fun _ => nofun, fun _ => rfl⟩
  | cons x xs ih =>
    rw [List.foldlM_cons, isOk_bind, List.forall_mem_cons, ← hstep a ha x List.mem_cons_self,
      isOk_iff_exists]
    have hrest : ∀ a', f a x = .ok a' → ((xs.foldlM f a').isOk = true ↔ ∀ y ∈ xs, c y) :=
      fun a' ha' => ih (fun a hI y hy => hstep a hI y (List.mem_cons_of_mem _ hy)) (hkeep a ha x a' ha')
    constructor
    · rintro ⟨a', ha', hok⟩
      exact ⟨⟨a', ha'⟩, (hrest a' ha').mp hok⟩
    · rintro ⟨⟨a', ha'⟩, hall⟩
      exact ⟨a', ha', (hrest a' ha').mpr hall⟩

/-- What the steps of a loop keep, the loop keeps. -/
theorem foldlM_keeps {f : α → γ → Except ε α} {I : α → Prop} {xs : List γ} {a a' : α}
    (hkeep : ∀ a, I a → ∀ x a', f a x = .ok a' → I a') (ha : I a) (h : xs.foldlM f a = .ok a') : I a' := by
  induction xs generalizing a with
  | nil =>
    cases h
    exact ha
  | cons x xs ih =>
    rw [List.foldlM_cons] at h
    cases hx : f a x with
    | error e =>
      rw [hx] at h
      cases h
    | ok a₁ =>
      rw [hx] at h
      exact ih (hkeep a ha x a₁ hx) h

/-- Two loops whose steps agree where an invariant holds. -/
theorem foldlM_congr {f g : α → γ → Except ε α} {I : α → Prop} {xs : List γ} {a : α}
    (hkeep : ∀ a, I a → ∀ x a', f a x = .ok a' → I a') (hagree : ∀ a, I a → ∀ x ∈ xs, f a x = g a x)
    (ha : I a) : xs.foldlM f a = xs.foldlM g a := by
  induction xs generalizing a with
  | nil => rfl
  | cons x xs ih =>
    rw [List.foldlM_cons, List.foldlM_cons, ← hagree a ha x List.mem_cons_self]
    cases hx : f a x with
    | error e => rfl
    | ok a₁ => exact ih (fun a hI y hy => hagree a hI y (List.mem_cons_of_mem _ hy)) (hkeep a ha x a₁ hx)

/-- A loop takes the steps of another one that succeeds, when it takes each step whose result the
final result extends. -/
theorem foldlM_follows {f g : α → γ → Except ε α} {R : α → α → Prop} {xs : List γ} {a r : α}
    (hrefl : ∀ a, R a a) (htrans : ∀ {a b c}, R a b → R b c → R a c)
    (hextends : ∀ a x a', f a x = .ok a' → R a a')
    (hstep : ∀ a, ∀ x ∈ xs, ∀ a', f a x = .ok a' → R a' r → g a x = .ok a')
    (h : xs.foldlM f a = .ok r) : xs.foldlM g a = .ok r := by
  induction xs generalizing a with
  | nil => exact h
  | cons x xs ih =>
    rw [List.foldlM_cons] at h ⊢
    obtain ⟨a₁, hx, hrest⟩ := bind_ok_iff.mp h
    have hr : R a₁ r := foldlM_keeps (I := R a₁)
      (fun b hb y b' hy => htrans hb (hextends b y b' hy)) (hrefl a₁) hrest
    rw [hstep a x List.mem_cons_self a₁ hx hr]
    exact ih (fun b y hy => hstep b y (List.mem_cons_of_mem _ hy)) hrest

theorem isOk_mapM {f : γ → Except ε α} {xs : List γ} :
    (xs.mapM f).isOk = true ↔ ∀ x ∈ xs, (f x).isOk = true := by
  induction xs with
  | nil => exact ⟨fun _ => nofun, fun _ => rfl⟩
  | cons x xs ih =>
    rw [List.mapM_cons, isOk_bind, List.forall_mem_cons, ← ih, isOk_iff_exists]
    constructor
    · rintro ⟨a, ha, hok⟩
      obtain ⟨as, has, -⟩ := isOk_bind.mp hok
      exact ⟨⟨a, ha⟩, isOk_iff_exists.mpr ⟨as, has⟩⟩
    · rintro ⟨⟨a, ha⟩, hok⟩
      obtain ⟨as, has⟩ := isOk_iff_exists.mp hok
      exact ⟨a, ha, isOk_bind.mpr ⟨as, has, rfl⟩⟩

end WalletToolbox.Lib
