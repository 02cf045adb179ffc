import Mathlib.Data.List.Sort
import Mathlib.Order.Basic
import WalletToolbox.Lib.Json

/-! # JSON values up to the order of keys

Objects are maps: two of them are alike when they have the same keys with values that are alike.
The form with ordered keys and normal numbers decides it. -/

namespace WalletToolbox.Lib.Json

variable {N : Type}

/-! ## Values that are alike -/

mutual

/-- The same value up to the order of fields, with numbers compared by `same`. -/
def Alike (same : N → N → Prop) : Json N → Json N → Prop
  | .null, .null => True
  | .bool b, .bool c => b = c
  | .number n, .number m => same n m
  | .string s, .string t => s = t
  | .array items, .array others => AlikeItems same items others
  | .object fields, .object others =>
    fields.length = others.length ∧ AlikeFields same fields others
  | _, _ => False

def AlikeItems (same : N → N → Prop) : List (Json N) → List (Json N) → Prop
  | [], [] => True
  | v :: rest, w :: others => Alike same v w ∧ AlikeItems same rest others
  | _, _ => False

def AlikeFields (same : N → N → Prop) : List (String × Json N) → List (String × Json N) → Prop
  | [], _ => True
  | (name, v) :: rest, others =>
    (∃ w, (name, w) ∈ others ∧ Alike same v w) ∧ AlikeFields same rest others

end

section Alike

variable {same : N → N → Prop}

theorem alikeItems_iff {items others : List (Json N)} :
    AlikeItems same items others ↔ List.Forall₂ (Alike same) items others := by
  induction items generalizing others with
  | nil => cases others <;> simp [AlikeItems]
  | cons v rest ih =>
    cases others with
    | nil => simp [AlikeItems]
    | cons w others => rw [AlikeItems, ih, List.forall₂_cons]

theorem alikeFields_iff {fields others : List (String × Json N)} :
    AlikeFields same fields others ↔
      ∀ f ∈ fields, ∃ w, (f.1, w) ∈ others ∧ Alike same f.2 w := by
  induction fields with
  | nil => simp [AlikeFields]
  | cons f rest ih => rw [AlikeFields, ih, List.forall_mem_cons]

theorem Alike.imp {same' : N → N → Prop} (hsame : ∀ n m, same n m → same' n m) {v w : Json N}
    (h : v.Alike same w) : v.Alike same' w := by
  induction v generalizing w with
  | null => cases w <;> exact h
  | bool b => cases w <;> exact h
  | number n =>
    cases w with
    | number m => exact hsame n m h
    | _ => exact h
  | string s => cases w <;> exact h
  | array items ih =>
    cases w with
    | array others =>
      rw [Alike, alikeItems_iff] at h ⊢
      induction h with
      | nil => exact .nil
      | cons hone _ hrest =>
        exact .cons (ih _ List.mem_cons_self hone)
          (hrest fun v hv w hw => ih v (List.mem_cons_of_mem _ hv) hw)
    | _ => exact h
  | object fields ih =>
    cases w with
    | object others =>
      rw [Alike, alikeFields_iff] at h ⊢
      refine ⟨h.1, fun f hf => ?_⟩
      obtain ⟨w, hmem, hw⟩ := h.2 f hf
      exact ⟨w, hmem, ih f hf hw⟩
    | _ => exact h

end Alike

theorem forall₂_iff_map_eq {α β : Type} {R : α → α → Prop} {f : α → β} {xs ys : List α}
    (h : ∀ x ∈ xs, ∀ y ∈ ys, R x y ↔ f x = f y) : List.Forall₂ R xs ys ↔ xs.map f = ys.map f := by
  induction xs generalizing ys with
  | nil => cases ys <;> simp
  | cons x xs ih =>
    cases ys with
    | nil => simp
    | cons y ys =>
      rw [List.forall₂_cons, List.map_cons, List.map_cons, List.cons.injEq,
        h x List.mem_cons_self y List.mem_cons_self,
        ih fun x hx y hy => h x (List.mem_cons_of_mem _ hx) y (List.mem_cons_of_mem _ hy)]

/-! ## The ordered form -/

section Ordered

variable {O : Type} [LinearOrder O] {normal : N → N} {key : String → O}

/-- The order of two fields by their names. -/
def Before (key : String → O) (f g : String × Json N) : Prop := key f.1 ≤ key g.1

instance : DecidableRel (Before (N := N) key) :=
  fun f g => inferInstanceAs (Decidable (key f.1 ≤ key g.1))

instance : Std.Total (Before (N := N) key) := ⟨fun f g => le_total (key f.1) (key g.1)⟩

instance : IsTrans (String × Json N) (Before key) := ⟨fun _ _ _ h h' => le_trans h h'⟩

mutual

/-- The form with ordered keys and normal numbers. -/
def ordered (normal : N → N) (key : String → O) : Json N → Json N
  | .null => .null
  | .bool b => .bool b
  | .number n => .number (normal n)
  | .string s => .string s
  | .array items => .array (orderedItems normal key items)
  | .object fields => .object ((orderedFields normal key fields).insertionSort (Before key))

def orderedItems (normal : N → N) (key : String → O) : List (Json N) → List (Json N)
  | [] => []
  | v :: rest => ordered normal key v :: orderedItems normal key rest

def orderedFields (normal : N → N) (key : String → O) :
    List (String × Json N) → List (String × Json N)
  | [] => []
  | (name, v) :: rest => (name, ordered normal key v) :: orderedFields normal key rest

end

theorem orderedItems_eq {items : List (Json N)} :
    orderedItems normal key items = items.map (ordered normal key) := by
  induction items with
  | nil => rfl
  | cons v rest ih => rw [orderedItems, ih, List.map_cons]

theorem orderedFields_eq {fields : List (String × Json N)} :
    orderedFields normal key fields = fields.map fun f => (f.1, ordered normal key f.2) := by
  induction fields with
  | nil => rfl
  | cons f rest ih => rw [orderedFields, ih, List.map_cons]

theorem orderedFields_names {fields : List (String × Json N)} :
    (orderedFields normal key fields).map (·.1) = fields.map (·.1) := by
  rw [orderedFields_eq, List.map_map]
  rfl

/-- Fields of different names are in one order only. -/
theorem sorted_eq_iff {fs gs : List (String × Json N)} (hkey : Function.Injective key)
    (hfs : (fs.map (·.1)).Nodup) (hgs : (gs.map (·.1)).Nodup) :
    fs.insertionSort (Before key) = gs.insertionSort (Before key) ↔
      fs.length = gs.length ∧ ∀ f ∈ fs, f ∈ gs := by
  constructor
  · intro h
    have hperm : fs.Perm gs :=
      (List.perm_insertionSort _ fs).symm.trans (h ▸ List.perm_insertionSort _ gs)
    exact ⟨hperm.length_eq, fun f hf => hperm.mem_iff.mp hf⟩
  · rintro ⟨hlength, hsub⟩
    have hperm : fs.Perm gs :=
      (List.subperm_of_subset hfs.of_map hsub).perm_of_length_le hlength.ge
    have hsorted := ((List.perm_insertionSort (Before key) fs).trans hperm).trans
      (List.perm_insertionSort (Before key) gs).symm
    refine hsorted.eq_of_pairwise ?_ (List.pairwise_insertionSort _ fs)
      (List.pairwise_insertionSort _ gs)
    intro f g hf hg hle hge
    rw [List.mem_insertionSort] at hf hg
    exact List.inj_on_of_nodup_map hgs (hsub f hf) hg (hkey (le_antisymm hle hge))

/-- Two values are alike when their ordered forms are the same. -/
theorem alike_iff_ordered {same : N → N → Prop} (hkey : Function.Injective key)
    (hsame : ∀ n m, same n m ↔ normal n = normal m) {v w : Json N} (hv : v.Distinct)
    (hw : w.Distinct) : v.Alike same w ↔ v.ordered normal key = w.ordered normal key := by
  induction v generalizing w with
  | null => cases w <;> simp [Alike, ordered]
  | bool b => cases w <;> simp [Alike, ordered]
  | number n => cases w <;> simp [Alike, ordered, hsame]
  | string s => cases w <;> simp [Alike, ordered]
  | array items ih =>
    cases w with
    | array others =>
      rw [Distinct, all_array] at hv hw
      rw [Alike, alikeItems_iff, ordered, ordered, orderedItems_eq, orderedItems_eq, array.injEq]
      exact forall₂_iff_map_eq fun v hmem w hother => ih v hmem (hv v hmem) (hw w hother)
    | _ => simp [Alike, ordered]
  | object fields ih =>
    cases w with
    | object others =>
      rw [Distinct, all_object] at hv hw
      have hnames : ∀ {fields : List (String × Json N)}, (fields.map (·.1)).Nodup →
          ((orderedFields normal key fields).map (·.1)).Nodup := by
        intro fields h
        rwa [orderedFields_names]
      rw [Alike, alikeFields_iff, ordered, ordered, object.injEq,
        sorted_eq_iff hkey (hnames hv.1) (hnames hw.1), orderedFields_eq, orderedFields_eq,
        List.length_map, List.length_map, List.forall_mem_map]
      refine and_congr_right fun _ => forall₂_congr fun f hf => ?_
      rw [List.mem_map]
      constructor
      · rintro ⟨w, hmem, halike⟩
        exact ⟨_, hmem, Prod.ext rfl ((ih f hf (hv.2 f hf) (hw.2 _ hmem)).mp halike).symm⟩
      · rintro ⟨g, hmem, heq⟩
        obtain ⟨hname, hvalue⟩ := Prod.mk.injEq .. ▸ heq
        exact ⟨g.2, hname ▸ hmem, (ih f hf (hv.2 f hf) (hw.2 _ hmem)).mpr hvalue.symm⟩
    | _ => simp [Alike, ordered]

theorem mem_orderedFields {fields : List (String × Json N)} {g : String × Json N} :
    g ∈ (orderedFields normal key fields).insertionSort (Before key) ↔
      ∃ f ∈ fields, (f.1, ordered normal key f.2) = g := by
  rw [List.mem_insertionSort, orderedFields_eq, List.mem_map]

theorem depth_ordered_le {v : Json N} {d : Nat} :
    (v.ordered normal key).depth ≤ d ↔ v.depth ≤ d := by
  induction v generalizing d with
  | array items ih =>
    cases d with
    | zero => simp [ordered, depth]
    | succ d =>
      rw [ordered, depth, depth, Nat.succ_le_succ_iff, Nat.succ_le_succ_iff, depthItems_le,
        depthItems_le, orderedItems_eq, List.forall_mem_map]
      exact forall₂_congr fun v hv => ih v hv
  | object fields ih =>
    cases d with
    | zero => simp [ordered, depth]
    | succ d =>
      rw [ordered, depth, depth, Nat.succ_le_succ_iff, Nat.succ_le_succ_iff, depthFields_le,
        depthFields_le]
      constructor
      · exact fun h f hf => (ih f hf).mp (h _ (mem_orderedFields.mpr ⟨f, hf, rfl⟩))
      · intro h g hg
        obtain ⟨f, hf, rfl⟩ := mem_orderedFields.mp hg
        exact (ih f hf).mpr (h f hf)
  | _ => rfl

theorem all_ordered_iff {nulls : Prop} {numbers : N → Prop} {v : Json N} :
    ((v.ordered normal key).All nulls numbers fun _ => True) ↔
      v.All nulls (fun n => numbers (normal n)) fun _ => True := by
  induction v with
  | array items ih =>
    rw [ordered, all_array, all_array, orderedItems_eq, List.forall_mem_map]
    exact forall₂_congr ih
  | object fields ih =>
    rw [ordered, all_object, all_object, true_and, true_and]
    constructor
    · exact fun h f hf => (ih f hf).mp (h _ (mem_orderedFields.mpr ⟨f, hf, rfl⟩))
    · intro h g hg
      obtain ⟨f, hf, rfl⟩ := mem_orderedFields.mp hg
      exact (ih f hf).mpr (h f hf)
  | _ => rfl

theorem ordered_ordered {v : Json N} (hnormal : ∀ n, normal (normal n) = normal n) :
    (v.ordered normal key).ordered normal key = v.ordered normal key := by
  induction v with
  | number n => rw [ordered, ordered, hnormal]
  | array items ih =>
    rw [ordered, ordered, orderedItems_eq, orderedItems_eq, List.map_map]
    exact congrArg array (List.map_congr_left ih)
  | object fields ih =>
    have hsame : orderedFields normal key ((orderedFields normal key fields).insertionSort (Before key)) =
        (orderedFields normal key fields).insertionSort (Before key) := by
      have hmap : ∀ gs : List (String × Json N), orderedFields normal key gs =
          gs.map fun f => (f.1, ordered normal key f.2) := fun gs => orderedFields_eq
      rw [hmap (List.insertionSort _ _)]
      refine (List.map_congr_left fun g hg => ?_).trans (List.map_id _)
      obtain ⟨f, hf, rfl⟩ := mem_orderedFields.mp hg
      exact Prod.ext rfl (ih f hf)
    rw [ordered, ordered, hsame, (List.pairwise_insertionSort (Before key) _).insertionSort_eq]
  | _ => rfl

/-- The ordered form keeps what holds of a value, and its keys ascend. -/
theorem all_ordered {nulls : Prop} {numbers : N → Prop} {v : Json N} (hkey : Function.Injective key)
    (h : v.All nulls (fun n => numbers (normal n)) List.Nodup) :
    (v.ordered normal key).All nulls numbers fun names => (names.map key).Pairwise (· < ·) := by
  induction v with
  | null => exact h
  | bool b => trivial
  | number n => exact h
  | string s => trivial
  | array items ih =>
    rw [all_array] at h
    rw [ordered, all_array, orderedItems_eq, List.forall_mem_map]
    exact fun v hv => ih v hv (h v hv)
  | object fields ih =>
    rw [all_object] at h
    rw [ordered, all_object]
    constructor
    · have hsorted := List.pairwise_insertionSort (Before key) (orderedFields normal key fields)
      have hnodup : (((orderedFields normal key fields).insertionSort (Before key)).map (·.1)).Nodup := by
        rw [((List.perm_insertionSort _ _).map _).nodup_iff, orderedFields_names]
        exact h.1
      rw [List.pairwise_map, List.pairwise_map]
      rw [List.Nodup, List.pairwise_map] at hnodup
      exact hsorted.imp₂ (fun f g hle hne => lt_of_le_of_ne hle fun heq => hne (hkey heq)) hnodup
    · intro g hg
      obtain ⟨f, hf, rfl⟩ := mem_orderedFields.mp hg
      exact ih f hf (h.2 f hf)

end Ordered

end WalletToolbox.Lib.Json
