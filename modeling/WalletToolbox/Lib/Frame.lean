import WalletToolbox.Lib.Table

/-! # What writes leave alone

An insert and an update keep every row of a table, with the columns that an update cannot change.
A deletion keeps the constraints of a table, and those of the tables that refer to it when nothing
refers to what goes.
A query that selects neither the rows a write finds nor the rows it makes answers as before.
Which columns last is a parameter of the row type. -/

namespace WalletToolbox.Lib

/-- Rows whose lasting columns are related by `same` from write to write. -/
class Lasting (α : Type) [Keyed α] where
  same : α → α → Prop
  refl : ∀ r, same r r
  trans : ∀ r₁ r₂ r₃, same r₁ r₂ → same r₂ r₃ → same r₁ r₃

namespace Table

variable {α : Type} [Keyed α] {t t₁ t₂ t₃ : Table α}

/-! ## Rows that last -/

/-- Every row is still there under its key, with its lasting columns. -/
def Kept [Lasting α] (t t' : Table α) : Prop :=
  ∀ r ∈ t, ∃ r' ∈ t', key r' = key r ∧ Lasting.same r r'

section Kept

variable [Lasting α]

theorem Kept.refl (t : Table α) : t.Kept t :=
  fun r hr => ⟨r, hr, rfl, Lasting.refl r⟩

theorem Kept.trans (h : t₁.Kept t₂) (h' : t₂.Kept t₃) : t₁.Kept t₃ := by
  intro r hr
  obtain ⟨r', hr', hkey, hsame⟩ := h r hr
  obtain ⟨r'', hr'', hkey', hsame'⟩ := h' r' hr'
  exact ⟨r'', hr'', hkey'.trans hkey, Lasting.trans _ _ _ hsame hsame'⟩

theorem Kept.insert {mk : Nat → α} (hk : ∀ n, key (mk n) = n) : t.Kept (t.insert mk hk) :=
  fun r hr => ⟨r, mem_insert.mpr (.inl hr), rfl, Lasting.refl r⟩

theorem Kept.update {p : α → Bool} (f : α → α) (hf : ∀ r, key (f r) = key r)
    (h : ∀ r, Lasting.same r (f r)) : t.Kept (t.update p f hf) := by
  intro r hr
  refine ⟨_, mem_update_of_mem hr, ?_, ?_⟩
  · split
    · exact hf r
    · rfl
  · split
    · exact h r
    · exact Lasting.refl r

end Kept

/-! ## Queries that do not see a write -/

theorem find_insert_of_not (mk : Nat → α) (hk : ∀ n, key (mk n) = n) {q : α → Bool}
    (h : q (mk (t.lastId + 1)) = false) : (t.insert mk hk).find q = t.find q := by
  rw [find_insert, if_neg (by simp [h]), List.append_nil]

theorem find_update_of_not {p q : α → Bool} (f : α → α) (hf : ∀ r, key (f r) = key r)
    (h : ∀ r ∈ t, p r = true → q r = false ∧ q (f r) = false) :
    (t.update p f hf).find q = t.find q := by
  simp only [find, update, List.filter_map]
  have hsel : ∀ r ∈ t.rows, (q ∘ fun r => if p r then f r else r) r = q r := by
    intro r hr
    cases hp : p r with
    | true => simp [hp, h r hr hp]
    | false => simp [hp]
  rw [List.filter_congr hsel]
  refine (List.map_congr_left fun r hr => ?_).trans (List.map_id _)
  obtain ⟨hr, hq⟩ := List.mem_filter.mp hr
  cases hp : p r with
  | true =>
    rw [(h r hr hp).1] at hq
    cases hq
  | false => simp

/-! ## Deleted rows -/

section Delete

variable {β : Type} [Keyed β] {κ : Type} {t' : Table β}

theorem Unique.delete {k : α → κ} (h : t.Unique k) (p : α → Bool) : (t.delete p).Unique k :=
  h.filter _

theorem Refers.delete {g : α → Nat} (h : t.Refers g t') (p : α → Bool) : (t.delete p).Refers g t' :=
  fun r hr => h r (List.mem_filter.mp hr).1

theorem RefersOpt.delete {g : α → Option Nat} (h : t.RefersOpt g t') (p : α → Bool) :
    (t.delete p).RefersOpt g t' :=
  fun r hr => h r (List.mem_filter.mp hr).1

theorem Refers.delete_target {g : α → Nat} (h : t.Refers g t') {p : β → Bool}
    (hp : ∀ r ∈ t, ∀ b ∈ t', key b = g r → p b = false) : t.Refers g (t'.delete p) := by
  intro r hr
  obtain ⟨b, hb, hkey⟩ := h r hr
  exact ⟨b, mem_delete.mpr ⟨hb, hp r hr b hb hkey⟩, hkey⟩

theorem RefersOpt.delete_target {g : α → Option Nat} (h : t.RefersOpt g t') {p : β → Bool}
    (hp : ∀ r ∈ t, ∀ b ∈ t', g r = some (key b) → p b = false) : t.RefersOpt g (t'.delete p) := by
  intro r hr i hi
  obtain ⟨b, hb, hkey⟩ := h r hr i hi
  refine ⟨b, mem_delete.mpr ⟨hb, hp r hr b hb ?_⟩, hkey⟩
  rw [hkey]
  exact hi

theorem delete_delete (p q : α → Bool) : (t.delete p).delete q = t.delete fun r => p r || q r := by
  refine ext_rows ?_ rfl
  simp only [delete, List.filter_filter, Bool.not_or, Bool.and_comm]

theorem delete_congr {p q : α → Bool} (h : ∀ r ∈ t, p r = q r) : t.delete p = t.delete q :=
  ext_rows (List.filter_congr fun r hr => congrArg _ (h r hr)) rfl

theorem delete_none {p : α → Bool} (h : ∀ r ∈ t, p r = false) : t.delete p = t :=
  ext_rows (List.filter_eq_self.mpr fun r hr => by rw [h r hr]; rfl) rfl

/-- A deletion does not touch what a query selects. -/
theorem first_delete {p q : α → Bool} (h : ∀ r ∈ t, q r = true → p r = false) :
    (t.delete p).first q = t.first q := by
  simp only [first, delete, List.find?_filter]
  refine List.find?_congr fun r hr => ?_
  cases hq : q r with
  | true => simp [h r hr hq]
  | false => simp

end Delete

/-! ## Rows of an owner -/

end Table

/-- Rows with an owner, which is one of the lasting columns or follows from the key. -/
class Owned (α : Type) [Keyed α] [Lasting α] where
  owner : α → Nat
  owner_eq : ∀ r r', key r' = key r → Lasting.same r r' → owner r' = owner r

namespace Table

variable {α : Type} [Keyed α] [Lasting α] [Owned α] {t t' : Table α} {a b id : Nat}

/-- The table has a row with the key, and it belongs to `a`. -/
def OwnedBy (t : Table α) (a id : Nat) : Prop :=
  ∃ r ∈ t, key r = id ∧ Owned.owner r = a

/-- The rows of an owner. -/
def rowsOf (t : Table α) (b : Nat) : List α :=
  t.find fun r => Owned.owner r == b

theorem OwnedBy.kept (h : t.OwnedBy a id) (hkept : t.Kept t') : t'.OwnedBy a id := by
  obtain ⟨r, hr, hid, howner⟩ := h
  obtain ⟨r', hr', hkey, hsame⟩ := hkept r hr
  exact ⟨r', hr', hkey.trans hid, (Owned.owner_eq r r' hkey hsame).trans howner⟩

theorem OwnedBy.insert (mk : Nat → α) (hk : ∀ n, key (mk n) = n)
    (h : Owned.owner (mk (t.lastId + 1)) = a) : (t.insert mk hk).OwnedBy a (t.lastId + 1) :=
  ⟨_, mem_insert.mpr (.inr rfl), hk _, h⟩

theorem OwnedBy.owner_eq (h : t.OwnedBy a id) {r : α} (hr : r ∈ t) (hid : key r = id) :
    Owned.owner r = a := by
  obtain ⟨r', hr', hid', howner⟩ := h
  rw [eq_of_key_eq hr hr' (hid.trans hid'.symm), howner]

/-- A new row of somebody else. -/
theorem rowsOf_insert (mk : Nat → α) (hk : ∀ n, key (mk n) = n)
    (h : Owned.owner (mk (t.lastId + 1)) ≠ b) : (t.insert mk hk).rowsOf b = t.rowsOf b :=
  find_insert_of_not mk hk (by simpa using h)

/-- An update of rows of somebody else. -/
theorem rowsOf_update {p : α → Bool} (f : α → α) (hf : ∀ r, key (f r) = key r)
    (hsame : ∀ r, Lasting.same r (f r)) (h : ∀ r ∈ t, p r = true → Owned.owner r ≠ b) :
    (t.update p f hf).rowsOf b = t.rowsOf b :=
  find_update_of_not f hf fun r hr hp => by
    have hne := h r hr hp
    have heq := Owned.owner_eq r (f r) (hf r) (hsame r)
    simp [hne, heq]

end Table

end WalletToolbox.Lib
