import Mathlib.Data.List.Basic
import Mathlib.Data.List.Find
import Mathlib.Data.List.Nodup
import Mathlib.Tactic.Common

/-! # Keyed tables

An SQL table with an integer primary key that the engine assigns.
Rows stay in key order, keys are positive and never exceed the last one handed out, so a
fresh key names no row and two rows with one key are one row.
The file knows nothing about what a row holds. -/

namespace WalletToolbox.Lib

/-- A row type with its primary key column. -/
class Keyed (α : Type) where
  key : α → Nat

export Keyed (key)

/-- A table with the facts the engine keeps about its primary keys. -/
structure Table (α : Type) [Keyed α] where
  rows : List α
  lastId : Nat
  sorted : rows.Pairwise fun a b => key a < key b
  bounded : ∀ r ∈ rows, 0 < key r ∧ key r ≤ lastId

namespace Table

variable {α : Type} [Keyed α]

instance : Membership α (Table α) where
  mem t r := r ∈ t.rows

instance [DecidableEq α] (r : α) (t : Table α) : Decidable (r ∈ t) :=
  inferInstanceAs (Decidable (r ∈ t.rows))

instance [DecidableEq α] : DecidableEq (Table α)
  | ⟨rows, lastId, _, _⟩, ⟨rows', lastId', _, _⟩ =>
    decidable_of_iff (rows = rows' ∧ lastId = lastId') (by simp only [mk.injEq])

/-- The table of a fresh database. -/
def empty : Table α :=
  ⟨[], 0, List.Pairwise.nil, by simp⟩

instance : Inhabited (Table α) := ⟨empty⟩

/-- The rows that satisfy a condition, in key order. -/
def find (t : Table α) (p : α → Bool) : List α :=
  t.rows.filter p

/-- The row with the lowest key among those that satisfy a condition. -/
def first (t : Table α) (p : α → Bool) : Option α :=
  t.rows.find? p

/-- Whether some row satisfies a condition. -/
def exists? (t : Table α) (p : α → Bool) : Bool :=
  t.rows.any p

/-- Rewrite every row that satisfies a condition; the key column is not rewritten. -/
def update (t : Table α) (p : α → Bool) (f : α → α) (hf : ∀ r, key (f r) = key r) : Table α where
  rows := t.rows.map fun r => if p r then f r else r
  lastId := t.lastId
  sorted := by
    refine List.pairwise_map.mpr (t.sorted.imp fun {a b} h => ?_)
    split <;> split <;> simpa only [hf] using h
  bounded := by
    intro r hr
    obtain ⟨r₀, h₀, rfl⟩ := List.mem_map.mp hr
    split
    · simpa only [hf] using t.bounded r₀ h₀
    · exact t.bounded r₀ h₀

/-- Append a row under the next key. -/
def insert (t : Table α) (mk : Nat → α) (hk : ∀ n, key (mk n) = n) : Table α where
  rows := t.rows ++ [mk (t.lastId + 1)]
  lastId := t.lastId + 1
  sorted := by
    refine List.pairwise_append.mpr ⟨t.sorted, List.pairwise_singleton _ _, fun a ha b hb => ?_⟩
    rw [List.mem_singleton.mp hb, hk]
    exact Nat.lt_succ_of_le (t.bounded a ha).2
  bounded := by
    intro r hr
    rcases List.mem_append.mp hr with h | h
    · exact ⟨(t.bounded r h).1, Nat.le_succ_of_le (t.bounded r h).2⟩
    · rw [List.mem_singleton.mp h, hk]
      exact ⟨Nat.succ_pos _, Nat.le_refl _⟩

/-- Drop every row that satisfies a condition; keys are not handed out again. -/
def delete (t : Table α) (p : α → Bool) : Table α where
  rows := t.rows.filter fun r => !p r
  lastId := t.lastId
  sorted := t.sorted.filter _
  bounded r hr := t.bounded r (List.mem_filter.mp hr).1

/-! ## Membership -/

theorem mem_def {t : Table α} {r : α} : r ∈ t ↔ r ∈ t.rows := Iff.rfl

instance {t : Table α} {p : α → Prop} [DecidablePred p] : Decidable (∃ r ∈ t, p r) :=
  inferInstanceAs (Decidable (∃ r ∈ t.rows, p r))

instance {t : Table α} {p : α → Prop} [DecidablePred p] : Decidable (∀ r ∈ t, p r) :=
  inferInstanceAs (Decidable (∀ r ∈ t.rows, p r))

@[simp] theorem not_mem_empty (r : α) : r ∉ (empty : Table α) := List.not_mem_nil

@[simp] theorem mem_find {t : Table α} {p : α → Bool} {r : α} : r ∈ t.find p ↔ r ∈ t ∧ p r = true :=
  List.mem_filter

@[simp] theorem mem_delete {t : Table α} {p : α → Bool} {r : α} :
    r ∈ t.delete p ↔ r ∈ t ∧ p r = false := by
  simp only [mem_def, delete, List.mem_filter, Bool.not_eq_true']

theorem mem_update {t : Table α} {p : α → Bool} {f : α → α} {hf : ∀ r, key (f r) = key r}
    {r : α} : r ∈ t.update p f hf ↔ ∃ r₀ ∈ t, r = if p r₀ then f r₀ else r₀ := by
  simp only [mem_def, update, List.mem_map, eq_comm]

/-- A row of an updated table is an untouched row or the rewriting of a selected one. -/
theorem mem_update_cases {t : Table α} {p : α → Bool} {f : α → α} {hf : ∀ r, key (f r) = key r}
    {r : α} (h : r ∈ t.update p f hf) :
    (r ∈ t ∧ p r = false) ∨ ∃ r₀ ∈ t, p r₀ = true ∧ r = f r₀ := by
  obtain ⟨r₀, h₀, rfl⟩ := mem_update.mp h
  cases hp : p r₀ with
  | false => exact .inl ⟨by simpa using h₀, by simpa using hp⟩
  | true => exact .inr ⟨r₀, h₀, hp, by simp⟩

theorem mem_update_of_mem {t : Table α} {p : α → Bool} {f : α → α}
    {hf : ∀ r, key (f r) = key r} {r : α} (h : r ∈ t) :
    (if p r then f r else r) ∈ t.update p f hf :=
  mem_update.mpr ⟨r, h, rfl⟩

theorem mem_insert {t : Table α} {mk : Nat → α} {hk : ∀ n, key (mk n) = n} {r : α} :
    r ∈ t.insert mk hk ↔ r ∈ t ∨ r = mk (t.lastId + 1) := by
  simp only [mem_def, insert, List.mem_append, List.mem_singleton]

/-! ## Keys -/

theorem key_pos {t : Table α} {r : α} (h : r ∈ t) : 0 < key r :=
  (t.bounded r h).1

theorem key_le_lastId {t : Table α} {r : α} (h : r ∈ t) : key r ≤ t.lastId :=
  (t.bounded r h).2

/-- The next key is not in use. -/
theorem key_ne_fresh {t : Table α} {r : α} (h : r ∈ t) : key r ≠ t.lastId + 1 :=
  Nat.ne_of_lt (Nat.lt_succ_of_le (key_le_lastId h))

/-- The primary key determines the row. -/
theorem eq_of_key_eq {t : Table α} {a b : α} (ha : a ∈ t) (hb : b ∈ t) (h : key a = key b) :
    a = b := by
  have hnodup : (t.rows.map key).Nodup :=
    List.pairwise_map.mpr (t.sorted.imp fun hlt => Nat.ne_of_lt hlt)
  exact List.inj_on_of_nodup_map hnodup ha hb h

/-! ## Reading -/

theorem find_eq_nil {t : Table α} {p : α → Bool} : t.find p = [] ↔ ∀ r ∈ t, p r = false := by
  simp only [find, List.filter_eq_nil_iff, Bool.not_eq_true]
  exact Iff.rfl

theorem first_some {t : Table α} {p : α → Bool} {r : α} (h : t.first p = some r) :
    r ∈ t ∧ p r = true :=
  ⟨List.mem_of_find?_eq_some h, List.find?_some h⟩

theorem first_none {t : Table α} {p : α → Bool} : t.first p = none ↔ ∀ r ∈ t, p r = false := by
  simp only [first, List.find?_eq_none, Bool.not_eq_true]
  exact Iff.rfl

/-- No selected row has a lower key. -/
theorem first_key_le {t : Table α} {p : α → Bool} {r a : α} (h : t.first p = some r) (ha : a ∈ t)
    (hp : p a = true) : key r ≤ key a := by
  obtain ⟨-, before, behind, hrows, hnot⟩ := List.find?_eq_some_iff_append.mp h
  have hsorted := t.sorted
  rw [hrows, List.pairwise_append, List.pairwise_cons] at hsorted
  rw [mem_def, hrows] at ha
  rcases List.mem_append.mp ha with hin | hin
  · simpa [hp] using hnot a hin
  · rcases List.mem_cons.mp hin with rfl | hin
    · exact Nat.le_refl _
    · exact Nat.le_of_lt (hsorted.2.1.1 a hin)

theorem first_eq_head {t : Table α} {p : α → Bool} : t.first p = (t.find p).head? := by
  simp only [first, find, List.head?_filter]

/-- A query after an insert. -/
theorem find_insert {t : Table α} {mk : Nat → α} {hk : ∀ n, key (mk n) = n} {p : α → Bool} :
    (t.insert mk hk).find p = t.find p ++ if p (mk (t.lastId + 1)) then [mk (t.lastId + 1)] else [] := by
  simp only [find, insert, List.filter_append, List.filter_cons, List.filter_nil]

theorem exists?_eq_true {t : Table α} {p : α → Bool} : t.exists? p = true ↔ ∃ r ∈ t, p r = true :=
  List.any_eq_true

theorem exists?_eq_false {t : Table α} {p : α → Bool} :
    t.exists? p = false ↔ ∀ r ∈ t, p r = false := by
  simp only [exists?, List.any_eq_false, Bool.not_eq_true]
  exact Iff.rfl

/-- Selected rows have different keys. -/
theorem nodup_key_find (t : Table α) (p : α → Bool) : ((t.find p).map key).Nodup :=
  List.pairwise_map.mpr ((t.sorted.filter p).imp Nat.ne_of_lt)

/-- A query that selects one row. -/
theorem find_singleton {t : Table α} {p : α → Bool} {a : α} (ha : a ∈ t) (hp : p a = true)
    (honly : ∀ b ∈ t, p b = true → b = a) : t.find p = [a] := by
  have hall : ∀ b ∈ t.find p, b = a := by
    intro b hb
    obtain ⟨hmem, hsel⟩ := mem_find.mp hb
    exact honly b hmem hsel
  have hkeys := t.nodup_key_find p
  have hmem : a ∈ t.find p := mem_find.mpr ⟨ha, hp⟩
  match hrows : t.find p with
  | [] =>
    rw [hrows] at hmem
    cases hmem
  | [b] => rw [hall b (by rw [hrows]; exact List.mem_singleton.mpr rfl)]
  | b :: b' :: rest =>
    rw [hrows] at hall hkeys
    rw [hall b (by simp), hall b' (by simp)] at hkeys
    simp at hkeys

/-- The key of a row is among the keys of the selected rows exactly when the row is selected. -/
theorem contains_key_find {t : Table α} {p : α → Bool} {r : α} (h : r ∈ t) :
    ((t.find p).map key).contains (key r) = p r := by
  rw [Bool.eq_iff_iff, List.contains_iff_mem, List.mem_map]
  constructor
  · rintro ⟨r', hr', hkey⟩
    obtain ⟨hmem, hp⟩ := mem_find.mp hr'
    exact eq_of_key_eq hmem h hkey ▸ hp
  · intro hp
    exact ⟨r, mem_find.mpr ⟨h, hp⟩, rfl⟩

/-! ## Rewriting one row after another -/

theorem ext_rows {t t' : Table α} (hr : t.rows = t'.rows) (hl : t.lastId = t'.lastId) : t = t' := by
  cases t; cases t'
  simp only at hr hl
  subst hr hl
  rfl

theorem update_congr {t : Table α} {p q : α → Bool} {f g : α → α}
    {hf : ∀ r, key (f r) = key r} {hg : ∀ r, key (g r) = key r}
    (h : ∀ r ∈ t, (if p r then f r else r) = if q r then g r else r) :
    t.update p f hf = t.update q g hg :=
  ext_rows (List.map_congr_left h) rfl

theorem update_none {t : Table α} {p : α → Bool} {f : α → α} {hf : ∀ r, key (f r) = key r}
    (h : ∀ r ∈ t, p r = true → f r = r) : t.update p f hf = t := by
  refine ext_rows ((List.map_congr_left fun r hr => ?_).trans (List.map_id _)) rfl
  split
  · exact h r hr ‹_›
  · rfl

/-- A rewriting that a condition does not see leaves the order of the rows that satisfy it. -/
theorem find_update {t : Table α} {p q : α → Bool} {f : α → α} {hf : ∀ r, key (f r) = key r}
    (hq : ∀ r, q (f r) = q r) :
    (t.update p f hf).find q = (t.find q).map fun r => if p r then f r else r := by
  simp only [find, update, List.filter_map]
  refine congrArg _ (List.filter_congr fun r _ => ?_)
  by_cases hp : p r = true <;> simp [hp, hq]

/-- A rewriting after which no row satisfies a condition takes its rows out of the query. -/
theorem find_update_leaving {t : Table α} {p q : α → Bool} {f : α → α} {hf : ∀ r, key (f r) = key r}
    (hq : ∀ r, q (f r) = false) :
    (t.update p f hf).find q = (t.find q).filter fun r => !p r := by
  simp only [find, update, List.filter_map, List.filter_filter]
  have hsel : ∀ r, (q ∘ fun r => if p r then f r else r) r = (!p r && q r) := by
    intro r
    by_cases hp : p r = true <;> simp [hp, hq]
  rw [List.filter_congr fun r _ => hsel r]
  refine (List.map_congr_left fun r hr => ?_).trans (List.map_id _)
  have hnot := (List.mem_filter.mp hr).2
  rw [Bool.and_eq_true, Bool.not_eq_true'] at hnot
  simp [hnot.1]

/-- Only the rows that are rewritten matter. -/
theorem first_update_of_mem {t : Table α} {p q : α → Bool} {f : α → α}
    {hf : ∀ r, key (f r) = key r} (hq : ∀ r ∈ t, p r = true → q (f r) = q r) :
    (t.update p f hf).first q = (t.first q).map fun r => if p r then f r else r := by
  simp only [first, update, List.find?_map]
  refine congrArg _ (List.find?_congr fun r hr => ?_)
  by_cases hp : p r = true
  · simp [hp, hq r hr hp]
  · simp [hp]

theorem first_update {t : Table α} {p q : α → Bool} {f : α → α} {hf : ∀ r, key (f r) = key r}
    (hq : ∀ r, q (f r) = q r) :
    (t.update p f hf).first q = (t.first q).map fun r => if p r then f r else r :=
  first_update_of_mem fun r _ _ => hq r

theorem first_insert {t : Table α} {mk : Nat → α} {hk : ∀ n, key (mk n) = n} {q : α → Bool}
    (hnone : t.first q = none) (hq : q (mk (t.lastId + 1)) = true) :
    (t.insert mk hk).first q = some (mk (t.lastId + 1)) := by
  rw [first_eq_head, List.head?_eq_none_iff] at hnone
  rw [first_eq_head, find_insert, if_pos hq, hnone]
  rfl

/-- Two rewritings in a row are one, when the second condition is stable under the first. -/
theorem update_update {t : Table α} {p q : α → Bool} {f : α → α} {hf : ∀ r, key (f r) = key r}
    (hq : ∀ r, q (f r) = q r) (hff : ∀ r, f (f r) = f r) :
    (t.update p f hf).update q f hf = t.update (fun r => p r || q r) f hf := by
  refine ext_rows ?_ rfl
  simp only [update, List.map_map]
  refine List.map_congr_left fun r _ => ?_
  by_cases hp : p r = true <;> by_cases hq' : q r = true <;> simp [hp, hq, hq', hff]

/-- Rewriting the rows of a list of keys one statement after another rewrites them at once. -/
theorem foldl_update {t : Table α} {ids : List Nat} {f : α → α} {hf : ∀ r, key (f r) = key r}
    (hff : ∀ r, f (f r) = f r) :
    ids.foldl (fun t i => t.update (fun r => key r == i) f hf) t =
      t.update (fun r => ids.contains (key r)) f hf := by
  induction ids generalizing t with
  | nil => exact (update_none (by simp)).symm
  | cons i ids ih =>
    rw [List.foldl_cons, ih, update_update (by simp [hf]) hff]
    refine update_congr fun r _ => ?_
    simp only [List.contains_cons]

private theorem foldl_update_own_rows {h : α → α → α} (hk : ∀ r x, key (h r x) = key x)
    {rs : List α} (hrs : rs.Pairwise fun a b => key a ≠ key b) (t : Table α) :
    (rs.foldl (fun t r => t.update (fun x => key x == key r) (h r) (hk r)) t).rows =
      t.rows.map fun x => ((rs.find? fun r => key r == key x).map (h · x)).getD x := by
  induction rs generalizing t with
  | nil => simp
  | cons r rs ih =>
    obtain ⟨hr, hrs⟩ := List.pairwise_cons.mp hrs
    rw [List.foldl_cons, ih hrs]
    simp only [update, List.map_map]
    refine List.map_congr_left fun x _ => ?_
    simp only [Function.comp_apply, List.find?_cons]
    by_cases hx : key x = key r
    · have hnone : rs.find? (fun q => key q == key r) = none :=
        List.find?_eq_none.mpr fun q hq => by simpa using (hr q hq).symm
      simp [hx, hk, hnone]
    · have hne : (key r == key x) = false := by simpa using Ne.symm hx
      simp [hx, hne]

/-- Rewriting the selected rows one after another, each by a function of its own, rewrites them at
once. -/
theorem foldl_update_own {t : Table α} {p : α → Bool} {h : α → α → α}
    (hk : ∀ r x, key (h r x) = key x) :
    (t.find p).foldl (fun t r => t.update (fun x => key x == key r) (h r) (hk r)) t =
      t.update p (fun r => h r r) (fun r => hk r r) := by
  refine ext_rows ?_ ?_
  · have hdistinct : (t.find p).Pairwise fun a b => key a ≠ key b :=
      (t.sorted.imp fun hlt => Nat.ne_of_lt hlt).filter p
    rw [foldl_update_own_rows hk hdistinct]
    refine List.map_congr_left fun x hx => ?_
    cases hp : p x with
    | true =>
      obtain ⟨r, hr⟩ : ∃ r, (t.find p).find? (fun r => key r == key x) = some r := by
        cases hfind : (t.find p).find? fun r => key r == key x with
        | some r => exact ⟨r, rfl⟩
        | none =>
          have hno := List.find?_eq_none.mp hfind x (mem_find.mpr ⟨hx, hp⟩)
          exact absurd (by simp) hno
      obtain rfl : r = x := eq_of_key_eq (mem_find.mp (List.mem_of_find?_eq_some hr)).1 hx
        (by simpa using List.find?_some hr)
      simp [hr]
    | false =>
      have hnone : (t.find p).find? (fun r => key r == key x) = none := by
        refine List.find?_eq_none.mpr fun q hq => ?_
        obtain ⟨hmem, hsel⟩ := mem_find.mp hq
        intro hkey
        rw [eq_of_key_eq hmem hx (by simpa using hkey), hp] at hsel
        cases hsel
      simp [hnone]
  · generalize t.find p = rs
    induction rs generalizing t with
    | nil => rfl
    | cons r rs ih => exact ih

/-! ## How a table grows -/

/-- Rows are rewritten along `R` and new rows come after them. -/
def Extends (R : α → α → Prop) (t t' : Table α) : Prop :=
  ∃ (f : α → α) (added : List α), t'.rows = t.rows.map f ++ added ∧ ∀ r ∈ t, R r (f r)

namespace Extends

variable {R : α → α → Prop} {t t' t'' : Table α}

theorem refl (hR : ∀ r, R r r) (t : Table α) : Extends R t t :=
  ⟨id, [], by simp, fun r _ => hR r⟩

theorem trans (hR : ∀ {a b c}, R a b → R b c → R a c) (h : Extends R t t') (h' : Extends R t' t'') :
    Extends R t t'' := by
  obtain ⟨f, added, hrows, hf⟩ := h
  obtain ⟨g, added', hrows', hg⟩ := h'
  refine ⟨g ∘ f, added.map g ++ added', ?_, fun r hr => ?_⟩
  · rw [hrows', hrows, List.map_append, List.map_map, List.append_assoc]
  · have hmem : f r ∈ t' := by
      rw [mem_def, hrows]
      exact List.mem_append_left _ (List.mem_map_of_mem hr)
    exact hR (hf r hr) (hg _ hmem)

theorem update {p : α → Bool} {f : α → α} {hf : ∀ r, key (f r) = key r} (hR : ∀ r, R r r)
    (h : ∀ r ∈ t, p r = true → R r (f r)) : Extends R t (t.update p f hf) := by
  refine ⟨_, [], (List.append_nil _).symm, fun r hr => ?_⟩
  split
  · exact h r hr ‹_›
  · exact hR r

theorem insert {mk : Nat → α} {hk : ∀ n, key (mk n) = n} (hR : ∀ r, R r r) :
    Extends R t (t.insert mk hk) :=
  ⟨id, [mk (t.lastId + 1)], by rw [List.map_id]; rfl, fun r _ => hR r⟩

theorem mem (h : Extends R t t') {r : α} (hr : r ∈ t) : ∃ r' ∈ t', R r r' := by
  obtain ⟨f, added, hrows, hf⟩ := h
  refine ⟨f r, ?_, hf r hr⟩
  rw [mem_def, hrows]
  exact List.mem_append_left _ (List.mem_map_of_mem hr)

/-- A condition that the rewriting does not see still finds the same row first. -/
theorem first {q : α → Bool} (h : Extends R t t') (hq : ∀ {a b}, R a b → q b = q a) {r : α}
    (hr : t.first q = some r) : ∃ r', t'.first q = some r' ∧ R r r' := by
  obtain ⟨f, added, hrows, hf⟩ := h
  refine ⟨f r, ?_, hf r (first_some hr).1⟩
  have hsame : t.rows.find? (q ∘ f) = t.rows.find? q :=
    List.find?_congr fun a ha => hq (hf a ha)
  unfold Table.first at hr ⊢
  rw [hrows, List.find?_append, List.find?_map, hsame, hr]
  rfl

end Extends

/-! ## Declared constraints -/

/-- `UNIQUE`: no two rows agree on the given columns. -/
def Unique {κ : Type} (t : Table α) (k : α → κ) : Prop :=
  t.rows.Pairwise fun a b => k a ≠ k b

instance {κ : Type} [DecidableEq κ] (t : Table α) (k : α → κ) : Decidable (t.Unique k) :=
  inferInstanceAs (Decidable (t.rows.Pairwise fun a b => k a ≠ k b))

theorem Unique.eq {κ : Type} {t : Table α} {k : α → κ} (h : t.Unique k) {a b : α}
    (ha : a ∈ t) (hb : b ∈ t) (hk : k a = k b) : a = b :=
  List.inj_on_of_nodup_map (List.pairwise_map.mpr h) ha hb hk

/-- A query that selects one row at most. -/
theorem find_eq_first_toList {t : Table α} {p : α → Bool}
    (honly : ∀ a ∈ t, ∀ b ∈ t, p a = true → p b = true → a = b) :
    t.find p = (t.first p).toList := by
  cases hfirst : t.first p with
  | none => rw [find_eq_nil.mpr (first_none.mp hfirst), Option.toList_none]
  | some a =>
    obtain ⟨ha, hp⟩ := first_some hfirst
    rw [find_singleton ha hp fun b hb hpb => honly b hb a ha hpb hp, Option.toList_some]

/-- `REFERENCES` on a column that is never null. -/
def Refers {β : Type} [Keyed β] (t : Table α) (f : α → Nat) (t' : Table β) : Prop :=
  ∀ a ∈ t.rows, ∃ b ∈ t'.rows, key b = f a

/-- `REFERENCES` on a nullable column. -/
def RefersOpt {β : Type} [Keyed β] (t : Table α) (f : α → Option Nat) (t' : Table β) : Prop :=
  ∀ a ∈ t.rows, ∀ i ∈ f a, ∃ b ∈ t'.rows, key b = i

instance {β : Type} [Keyed β] (t : Table α) (f : α → Nat) (t' : Table β) :
    Decidable (t.Refers f t') :=
  inferInstanceAs (Decidable (∀ a ∈ t.rows, ∃ b ∈ t'.rows, key b = f a))

instance {β : Type} [Keyed β] (t : Table α) (f : α → Option Nat) (t' : Table β) :
    Decidable (t.RefersOpt f t') :=
  inferInstanceAs (Decidable (∀ a ∈ t.rows, ∀ i ∈ f a, ∃ b ∈ t'.rows, key b = i))

/-! ## Constraints under updates and inserts -/

section Keep

variable {β : Type} [Keyed β] {κ : Type} {t : Table α} {t' : Table β}

theorem Unique.update {k : α → κ} (h : t.Unique k) {p : α → Bool} {f : α → α}
    (hf : ∀ r, key (f r) = key r) (hk : ∀ r, k (f r) = k r) : (t.update p f hf).Unique k := by
  refine List.pairwise_map.mpr (h.imp fun {a b} hab => ?_)
  split <;> split <;> simpa only [hk] using hab

/-- A new row keeps `UNIQUE` when no row has its columns. -/
theorem Unique.insert {k : α → κ} (h : t.Unique k) {mk : Nat → α} (hk : ∀ n, key (mk n) = n)
    (hfresh : ∀ r ∈ t, k r ≠ k (mk (t.lastId + 1))) : (t.insert mk hk).Unique k := by
  refine List.pairwise_append.mpr ⟨h, List.pairwise_singleton _ _, fun a ha b hb => ?_⟩
  rw [List.mem_singleton.mp hb]
  exact hfresh a ha

/-- A referring table may be rewritten as long as the column keeps its value. -/
theorem Refers.update {g : α → Nat} (h : t.Refers g t') {p : α → Bool} {f : α → α}
    (hf : ∀ r, key (f r) = key r) (hg : ∀ r, g (f r) = g r) : (t.update p f hf).Refers g t' := by
  intro r hr
  obtain ⟨r₀, h₀, rfl⟩ := mem_update.mp hr
  obtain ⟨b, hb, hkey⟩ := h r₀ h₀
  refine ⟨b, hb, ?_⟩
  split
  · rw [hg, hkey]
  · exact hkey

theorem exists_key_update {p : β → Bool} {f : β → β} {hf : ∀ r, key (f r) = key r} {i : Nat}
    (h : ∃ b ∈ t'.rows, key b = i) : ∃ b ∈ (t'.update p f hf).rows, key b = i := by
  obtain ⟨b, hb, rfl⟩ := h
  refine ⟨_, mem_update_of_mem hb, ?_⟩
  split
  · exact hf b
  · rfl

/-- The referred table may be rewritten: keys stay. -/
theorem Refers.update_target {g : α → Nat} (h : t.Refers g t') {p : β → Bool} {f : β → β}
    (hf : ∀ r, key (f r) = key r) : t.Refers g (t'.update p f hf) :=
  fun r hr => exists_key_update (h r hr)

theorem RefersOpt.update_target {g : α → Option Nat} (h : t.RefersOpt g t') {p : β → Bool}
    {f : β → β} (hf : ∀ r, key (f r) = key r) : t.RefersOpt g (t'.update p f hf) :=
  fun r hr i hi => exists_key_update (h r hr i hi)

/-- The referred table may grow. -/
theorem Refers.insert_target {g : α → Nat} (h : t.Refers g t') {mk : Nat → β}
    (hk : ∀ n, key (mk n) = n) : t.Refers g (t'.insert mk hk) := by
  intro r hr
  obtain ⟨b, hb, hkey⟩ := h r hr
  exact ⟨b, List.mem_append_left _ hb, hkey⟩

theorem RefersOpt.insert_target {g : α → Option Nat} (h : t.RefersOpt g t') {mk : Nat → β}
    (hk : ∀ n, key (mk n) = n) : t.RefersOpt g (t'.insert mk hk) := by
  intro r hr i hi
  obtain ⟨b, hb, hkey⟩ := h r hr i hi
  exact ⟨b, List.mem_append_left _ hb, hkey⟩

/-- A nullable reference may keep its value, be cleared, or name another row. -/
theorem RefersOpt.update {g : α → Option Nat} (h : t.RefersOpt g t') {p : α → Bool} {f : α → α}
    (hf : ∀ r, key (f r) = key r)
    (hg : ∀ r ∈ t.rows, p r = true → ∀ i ∈ g (f r), i ∈ g r ∨ ∃ b ∈ t'.rows, key b = i) :
    (t.update p f hf).RefersOpt g t' := by
  intro r hr i hi
  obtain ⟨r₀, h₀, rfl⟩ := mem_update.mp hr
  by_cases hp : p r₀ = true
  · simp only [hp, if_true] at hi
    rcases hg r₀ h₀ hp i hi with hold | hnew
    · exact h r₀ h₀ i hold
    · exact hnew
  · simp only [hp] at hi
    exact h r₀ h₀ i hi

end Keep

end Table

end WalletToolbox.Lib
