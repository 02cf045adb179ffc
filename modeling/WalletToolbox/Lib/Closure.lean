import Mathlib.Data.List.Basic

/-! # Closing a list of known keys under rules

An item has a key and needs other keys.
Its key becomes known once everything it needs is known.
A worklist that passes over the items as often as there are items reaches the least such set,
which is stated here without any order as `Derives`. -/

namespace WalletToolbox.Lib.Closure

variable {α κ : Type} [BEq κ] [LawfulBEq κ] (key : α → κ) (needs : α → List κ)

/-- One item of a pass. -/
def step (known : List κ) (a : α) : List κ :=
  if known.contains (key a) then known
  else if (needs a).all known.contains then key a :: known
  else known

/-- One pass over all items. -/
def pass (items : List α) (known : List κ) : List κ :=
  items.foldl (step key needs) known

/-- As many passes as `n` says. -/
def passes (items : List α) (n : Nat) (known : List κ) : List κ :=
  (List.range n).foldl (fun known _ => pass key needs items known) known

/-- What follows from the seed, with a finite derivation: no key is its own reason. -/
inductive Derives (items : List α) (seed : κ → Prop) : κ → Prop where
  | seed {k : κ} : seed k → Derives items seed k
  | step {a : α} : a ∈ items → (∀ k ∈ needs a, Derives items seed k) → Derives items seed (key a)

variable {key needs} {items : List α} {known : List κ} {seed : κ → Prop}

omit [BEq κ] [LawfulBEq κ] in
/-- More items and a larger seed derive more. -/
theorem Derives.mono {items' : List α} {seed' : κ → Prop} {k : κ}
    (h : Derives key needs items seed k) (hitems : ∀ a ∈ items, a ∈ items')
    (hseed : ∀ k, seed k → seed' k) : Derives key needs items' seed' k := by
  induction h with
  | seed hk => exact .seed (hseed _ hk)
  | step ha _ ih => exact .step (hitems _ ha) ih

/-- A step adds the item's key, which was new and had all it needs, or nothing. -/
theorem step_cases (key : α → κ) (needs : α → List κ) (known : List κ) (a : α) :
    step key needs known a = known ∨
      step key needs known a = key a :: known ∧ key a ∉ known ∧ ∀ k ∈ needs a, k ∈ known := by
  unfold step
  by_cases hkey : known.contains (key a)
  · left
    rw [if_pos hkey]
  · by_cases hneeds : (needs a).all known.contains
    · right
      rw [if_neg hkey, if_pos hneeds]
      refine ⟨rfl, by simpa using hkey, ?_⟩
      intro k hk
      simpa using List.all_eq_true.mp hneeds k hk
    · left
      rw [if_neg hkey, if_neg hneeds]

/-! ## Soundness -/

theorem mem_foldl_step {xs : List α} (hxs : ∀ a ∈ xs, a ∈ items)
    (hknown : ∀ k ∈ known, Derives key needs items seed k) {k : κ}
    (h : k ∈ xs.foldl (step key needs) known) : Derives key needs items seed k := by
  induction xs generalizing known with
  | nil => exact hknown k h
  | cons a xs ih =>
    refine ih (fun b hb => hxs b (List.mem_cons_of_mem _ hb)) ?_ h
    rcases step_cases key needs known a with heq | ⟨heq, _, hneeds⟩
    · rw [heq]
      exact hknown
    · rw [heq]
      intro k hk
      rcases List.mem_cons.mp hk with rfl | hk
      · exact .step (hxs a List.mem_cons_self) fun k hk => hknown k (hneeds k hk)
      · exact hknown k hk

theorem derives_of_mem_passes {n : Nat} (hknown : ∀ k ∈ known, Derives key needs items seed k)
    {k : κ} (h : k ∈ passes key needs items n known) : Derives key needs items seed k := by
  induction n generalizing k with
  | zero => exact hknown k h
  | succ n ih =>
    rw [passes, List.range_succ, List.foldl_append] at h
    exact mem_foldl_step (fun _ ha => ha) (fun k hk => ih hk) h

/-! ## Completeness -/

theorem subset_foldl_step (xs : List α) {k : κ} (h : k ∈ known) :
    k ∈ xs.foldl (step key needs) known := by
  induction xs generalizing known with
  | nil => exact h
  | cons a xs ih =>
    apply ih
    rcases step_cases key needs known a with heq | ⟨heq, _, _⟩
    · rw [heq]
      exact h
    · rw [heq]
      exact List.mem_cons_of_mem _ h

theorem subset_passes (n : Nat) {k : κ} (h : k ∈ known) : k ∈ passes key needs items n known := by
  induction n with
  | zero => exact h
  | succ n ih =>
    rw [passes, List.range_succ, List.foldl_append]
    exact subset_foldl_step items ih

theorem length_foldl_step (key : α → κ) (needs : α → List κ) (known : List κ) (xs : List α) :
    known.length ≤ (xs.foldl (step key needs) known).length := by
  induction xs generalizing known with
  | nil => exact Nat.le_refl _
  | cons a xs ih =>
    have hstep : known.length ≤ (step key needs known a).length := by
      rcases step_cases key needs known a with heq | ⟨heq, _, _⟩ <;> simp [heq]
    exact Nat.le_trans hstep (ih _)

/-- A pass that ends where it started did nothing on the way. -/
theorem step_of_foldl_eq {xs : List α} (h : xs.foldl (step key needs) known = known) {a : α}
    (ha : a ∈ xs) : step key needs known a = known := by
  induction xs with
  | nil => cases ha
  | cons b xs ih =>
    rw [List.foldl_cons] at h
    rcases step_cases key needs known b with heq | ⟨heq, _, _⟩
    · rw [heq] at h
      rcases List.mem_cons.mp ha with rfl | ha
      · exact heq
      · exact ih h ha
    · have hlen := length_foldl_step key needs (key b :: known) xs
      rw [heq] at h
      rw [h, List.length_cons] at hlen
      omega

/-- The items whose key is still unknown. -/
def missing (key : α → κ) (items : List α) (known : List κ) : Nat :=
  items.countP fun a => !known.contains (key a)

theorem missing_le {known' : List κ} (h : ∀ k ∈ known, k ∈ known') :
    missing key items known' ≤ missing key items known := by
  apply List.countP_mono_left
  intro a _ ha
  simp only [Bool.not_eq_true', List.contains_eq_mem, decide_eq_false_iff_not] at ha ⊢
  exact fun hk => ha (h _ hk)

theorem missing_cons_lt {a : α} (ha : a ∈ items) (hnew : key a ∉ known) :
    missing key items (key a :: known) < missing key items known := by
  induction items with
  | nil => cases ha
  | cons b items ih =>
    unfold missing at ih ⊢
    rw [List.countP_cons, List.countP_cons]
    rcases List.mem_cons.mp ha with rfl | ha
    · have hrest : missing key items (key a :: known) ≤ missing key items known :=
        missing_le fun k hk => List.mem_cons_of_mem _ hk
      unfold missing at hrest
      simp [hnew] at hrest ⊢
      omega
    · have hrest := ih ha
      by_cases hb : key b ∈ known
      · simp [hb] at hrest ⊢
        omega
      · by_cases hab : key b = key a <;> simp [hb, hab] at hrest ⊢ <;> omega

/-- A pass that changes something leaves fewer items to do. -/
theorem pass_progress (key : α → κ) (needs : α → List κ) (items : List α) (known : List κ) :
    pass key needs items known = known ∨
      missing key items (pass key needs items known) < missing key items known := by
  suffices h : ∀ xs : List α, (∀ a ∈ xs, a ∈ items) → ∀ known : List κ,
      xs.foldl (step key needs) known = known ∨
        missing key items (xs.foldl (step key needs) known) < missing key items known from
    h items (fun _ ha => ha) known
  intro xs hxs
  induction xs with
  | nil =>
    intro known
    exact .inl rfl
  | cons a xs ih =>
    intro known
    have ih := ih (fun b hb => hxs b (List.mem_cons_of_mem _ hb))
    rw [List.foldl_cons]
    rcases step_cases key needs known a with heq | ⟨heq, hnew, _⟩
    · rw [heq]
      exact ih known
    · right
      rw [heq]
      have hlt := missing_cons_lt (hxs a List.mem_cons_self) hnew
      rcases ih (key a :: known) with hsame | hless
      · rwa [hsame]
      · omega

theorem missing_passes (key : α → κ) (needs : α → List κ) (items : List α) (known : List κ)
    (n : Nat) :
    pass key needs items (passes key needs items n known) = passes key needs items n known ∨
      missing key items (passes key needs items n known) + n ≤ missing key items known := by
  induction n with
  | zero => exact .inr (Nat.le_refl _)
  | succ n ih =>
    have hsucc : passes key needs items (n + 1) known =
        pass key needs items (passes key needs items n known) := by
      rw [passes, List.range_succ, List.foldl_append]
      rfl
    rw [hsucc]
    rcases ih with hfix | hless
    · left
      rw [hfix, hfix]
    · rcases pass_progress key needs items (passes key needs items n known)
        with hfix | hlt
      · left
        rw [hfix, hfix]
      · right
        omega

/-- The passes end in a set that another pass does not change. -/
theorem pass_passes (key : α → κ) (needs : α → List κ) (items : List α) (known : List κ) :
    pass key needs items (passes key needs items items.length known) =
      passes key needs items items.length known := by
  rcases missing_passes key needs items known items.length
    with hfix | hless
  · exact hfix
  · rcases pass_progress key needs items
      (passes key needs items items.length known) with hfix | hlt
    · exact hfix
    · have hle : missing key items known ≤ items.length := List.countP_le_length
      omega

/-- The passes compute exactly what the items derive from the keys known at the start. -/
theorem mem_passes {k : κ} :
    k ∈ passes key needs items items.length known ↔
      Derives key needs items (· ∈ known) k := by
  constructor
  · exact derives_of_mem_passes fun _ => .seed
  · intro h
    induction h with
    | seed hk => exact subset_passes _ hk
    | @step a ha _ ih =>
      -- the last pass did nothing, so the item that has all it needs is known already
      have hstep := step_of_foldl_eq (pass_passes key needs items known) ha
      by_contra hnew
      have hall : (needs a).all (passes key needs items items.length known).contains := by
        rw [List.all_eq_true]
        intro k hk
        simpa using ih k hk
      unfold step at hstep
      rw [if_neg (by simpa using hnew), if_pos hall] at hstep
      exact List.cons_ne_self _ _ hstep

end WalletToolbox.Lib.Closure
