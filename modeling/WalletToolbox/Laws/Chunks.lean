import WalletToolbox.Sync.GetSyncChunk

/-! # What a chunk holds

Whatever the budgets are, a chunk holds all remaining rows of some kinds, then a part of the next
kind, then nothing.
The part is a prefix of the remaining rows and is not empty, so a chunk without rows is the end. -/

namespace WalletToolbox.Storage

open WalletToolbox.Lib

variable {α : Type} (size : α → Nat)

/-- The rows of a page that fit are a prefix of it; all fit unless the budget runs out, and one
always does. -/
theorem addItems_spec (items : List α) {b : Budget} (hb : b.done = false) (hopen : 0 < b.itemCount) :
    (addItems size items b).1 <+: items ∧
      ((addItems size items b).2.done = false →
        (addItems size items b).1 = items ∧ 0 < (addItems size items b).2.itemCount) ∧
      (items ≠ [] → (addItems size items b).1 ≠ []) := by
  induction items generalizing b with
  | nil => exact ⟨List.prefix_refl _, fun _ => ⟨rfl, hopen⟩, fun h => absurd rfl h⟩
  | cons item rest ih =>
    unfold addItems
    by_cases hspent : b.itemCount - 1 ≤ 0 ∨ b.roughSize - size item < 0
    · simp only [hspent, if_true]
      refine ⟨⟨rest, rfl⟩, ?_, ?_⟩
      · intro h
        cases h
      · simp
    · simp only [hspent, if_false]
      obtain ⟨hpre, hall, _⟩ := ih
        (b := { b with itemCount := b.itemCount - 1, roughSize := b.roughSize - size item }) hb
        (show 0 < b.itemCount - 1 by omega)
      refine ⟨List.cons_prefix_cons.mpr ⟨rfl, hpre⟩, ?_, ?_⟩
      · intro h
        obtain ⟨heq, hpos⟩ := hall h
        exact ⟨by rw [heq], hpos⟩
      · simp

/-- Paging adds a prefix of the remaining rows to what is there; all of them unless the budget runs
out, and then at least one. -/
theorem chunkPages_spec {pageSize : Int} (hpage : 0 < pageSize) (rows : List α) (fuel offset : Nat)
    (target : Option (List α)) {b : Budget} (hb : b.done = false) (hopen : 0 < b.itemCount)
    (hfuel : rows.length < fuel + offset) (hfuel₀ : 0 < fuel) :
    ∃ added, (chunkPages size pageSize rows fuel offset target b).1 = some (target.getD [] ++ added) ∧
      added <+: rows.drop offset ∧
      ((chunkPages size pageSize rows fuel offset target b).2.done = false →
        added = rows.drop offset ∧
          0 < (chunkPages size pageSize rows fuel offset target b).2.itemCount) ∧
      ((chunkPages size pageSize rows fuel offset target b).2.done = true → added ≠ []) := by
  induction fuel generalizing offset target b with
  | zero => omega
  | succ fuel ih =>
    unfold chunkPages
    have hlimit : 0 < min b.itemCount pageSize := lt_min hopen hpage
    simp only [not_le.mpr hlimit, if_false]
    generalize hitems : (rows.drop offset).take (min b.itemCount pageSize).toNat = items
    by_cases hempty : items.isEmpty = true
    · -- the rows are exhausted
      simp only [hempty, if_true]
      have hdrop : rows.drop offset = [] := by
        rw [List.isEmpty_iff] at hempty
        rw [hempty, List.take_eq_nil_iff] at hitems
        rcases hitems with h | h
        · omega
        · exact h
      refine ⟨[], by simp, by simp, fun _ => ⟨hdrop.symm, hopen⟩, ?_⟩
      intro h
      rw [hb] at h
      cases h
    · simp only [hempty, Bool.false_eq_true, if_false]
      have hne : items ≠ [] := by simpa using hempty
      obtain ⟨hpre, hall, hsome⟩ := addItems_spec size items hb hopen
      have hpage : items <+: rows.drop offset := hitems ▸ List.take_prefix _ _
      by_cases hdone : (addItems size items b).2.done = true
      · simp only [hdone, if_true]
        refine ⟨_, rfl, hpre.trans hpage, ?_, fun _ => hsome hne⟩
        exact nofun
      · simp only [hdone, Bool.false_eq_true, if_false]
        have hdone : (addItems size items b).2.done = false := by simpa using hdone
        obtain ⟨heq, hpos⟩ := hall hdone
        have hlen : 0 < items.length := List.length_pos_iff.mpr hne
        have hle : items.length ≤ (rows.drop offset).length := hpage.length_le
        rw [List.length_drop] at hle
        obtain ⟨added, htarget, hadded, hall', hsome'⟩ := ih (offset + items.length)
          (some (target.getD [] ++ (addItems size items b).1)) hdone hpos (by omega) (by omega)
        have hrest : items ++ rows.drop (offset + items.length) = rows.drop offset := by
          obtain ⟨rest, hrest⟩ := hpage
          have : rows.drop (offset + items.length) = rest := by
            rw [← List.drop_drop, ← hrest, List.drop_left]
          rw [this, hrest]
        refine ⟨items ++ added, ?_, ?_, ?_, ?_⟩
        · rw [htarget, heq]
          simp
        · rw [← hrest]
          exact (List.prefix_append_right_inj items).mpr hadded
        · intro h
          obtain ⟨heq', hpos'⟩ := hall' h
          exact ⟨by rw [heq', hrest], hpos'⟩
        · intro h
          simp [hne]

/-- One kind of rows: nothing once a budget has run out, else a prefix of the remaining rows. -/
theorem chunkEntity_spec {pageSize : Int} (hpage : 0 < pageSize) (rows : List α) (offset : Nat)
    {b : Budget} (hb : b.done = false) (hopen : 0 < b.itemCount) :
    ∃ added, (chunkEntity size pageSize rows offset b).1 = some added ∧ added <+: rows.drop offset ∧
      ((chunkEntity size pageSize rows offset b).2.done = false →
        added = rows.drop offset ∧ 0 < (chunkEntity size pageSize rows offset b).2.itemCount) ∧
      ((chunkEntity size pageSize rows offset b).2.done = true → added ≠ []) := by
  unfold chunkEntity
  rw [if_pos (by simp [hb])]
  obtain ⟨added, htarget, hrest⟩ := chunkPages_spec size hpage rows (rows.length + 1) offset
    none hb hopen (by omega) (by omega)
  rw [Int.toNat_natCast]
  refine ⟨added, ?_, hrest⟩
  rw [htarget]
  simp

theorem chunkEntity_done {pageSize : Int} {rows : List α} {offset : Int} {b : Budget}
    (hb : b.done = true) : chunkEntity size pageSize rows offset b = (none, b) := by
  unfold chunkEntity
  rw [if_neg (by simp [hb])]

/-! ## All kinds -/

/-- A chunk of the kinds in a list: all rows of some, a part of the next one, nothing of the rest. -/
inductive Filled (rows : (e : Entity) → List e.Row) (chunk : (e : Entity) → Option (List e.Row)) :
    List Entity → Prop
  | nil : Filled rows chunk []
  | all {e : Entity} {es : List Entity} (h : chunk e = some (rows e)) (rest : Filled rows chunk es) :
      Filled rows chunk (e :: es)
  | part {e : Entity} {es : List Entity} {part : List e.Row} (h : chunk e = some part)
      (initial : part <+: rows e) (some : part ≠ []) (rest : ∀ e ∈ es, chunk e = none) :
      Filled rows chunk (e :: es)

variable {sizes : RowSize} {rows : (e : Entity) → List e.Row} {offsets : Entity → Nat} {maxItems : Int}

/-- Kinds that are not in the list are left as they are. -/
theorem chunkEntities_of_not_mem (es : List Entity) (chunk : (e : Entity) → Option (List e.Row))
    (b : Budget) {e : Entity} (he : e ∉ es) :
    chunkEntities sizes maxItems rows (fun e => offsets e) es chunk b e = chunk e := by
  induction es generalizing chunk b with
  | nil => rfl
  | cons e' es ih =>
    rw [List.mem_cons, not_or] at he
    unfold chunkEntities
    rcases chunkEntity (sizes e') (max 10 (maxItems / e'.divider)) (rows e') (offsets e') b with
      ⟨target, b'⟩
    exact (ih _ _ he.2).trans (Function.update_of_ne he.1 _ _)

theorem chunkEntities_done (es : List Entity) (chunk : (e : Entity) → Option (List e.Row))
    {b : Budget} (hb : b.done = true) {e : Entity} (he : e ∈ es) :
    chunkEntities sizes maxItems rows (fun e => offsets e) es chunk b e = none := by
  induction es generalizing chunk with
  | nil => cases he
  | cons e' es ih =>
    unfold chunkEntities
    simp only [chunkEntity_done _ hb]
    by_cases hmem : e ∈ es
    · exact ih _ hmem
    · rw [chunkEntities_of_not_mem es _ _ hmem]
      obtain rfl : e = e' := (List.mem_cons.mp he).resolve_right hmem
      rw [Function.update_self]

/-- A chunk is filled kind by kind. -/
theorem chunkEntities_filled (es : List Entity) (hes : es.Nodup)
    (chunk : (e : Entity) → Option (List e.Row)) {b : Budget} (hb : b.done = false)
    (hopen : 0 < b.itemCount) :
    Filled (fun e => (rows e).drop (offsets e))
      (chunkEntities sizes maxItems rows (fun e => offsets e) es chunk b) es := by
  induction es generalizing chunk b with
  | nil => exact .nil
  | cons e es ih =>
    obtain ⟨hnew, hes⟩ := List.nodup_cons.mp hes
    unfold chunkEntities
    have hpage : 0 < max 10 (maxItems / e.divider) := by omega
    obtain ⟨added, htarget, hpre, hall, hsome⟩ :=
      chunkEntity_spec (sizes e) hpage (rows e) (offsets e) hb hopen
    generalize chunkEntity (sizes e) (max 10 (maxItems / e.divider)) (rows e) (offsets e) b = r at *
    obtain ⟨target, b'⟩ := r
    simp only at htarget hall hsome ⊢
    subst htarget
    have hown : chunkEntities sizes maxItems rows (fun e => offsets e) es
        (Function.update chunk e (some added)) b' e = some added := by
      rw [chunkEntities_of_not_mem es _ _ hnew, Function.update_self]
    cases hdone : b'.done with
    | false =>
      obtain ⟨heq, hpos⟩ := hall hdone
      exact .all (by rw [hown, heq]) (ih hes _ hdone hpos)
    | true =>
      exact .part hown hpre (hsome hdone) fun e' he' => chunkEntities_done es _ hdone he'

/-! ## Nothing but rows of the reader

This holds of any budget and of any offsets. -/

section Subset

theorem addItems_subset (items : List α) (b : Budget) : (addItems size items b).1 ⊆ items := by
  induction items generalizing b with
  | nil => exact List.Subset.refl _
  | cons item rest ih =>
    unfold addItems
    simp only
    split
    · simp
    · exact List.cons_subset_cons item (ih _)

theorem chunkPages_subset {pageSize : Int} {rows : List α} (fuel offset : Nat)
    {target : Option (List α)} {b : Budget} (h : target.getD [] ⊆ rows) :
    (chunkPages size pageSize rows fuel offset target b).1.getD [] ⊆ rows := by
  induction fuel generalizing offset target b with
  | zero => exact h
  | succ fuel ih =>
    unfold chunkPages
    simp only
    split
    · exact h
    · split
      · exact h
      · have hitems : (rows.drop offset).take (min b.itemCount pageSize).toNat ⊆ rows :=
          List.Subset.trans (List.take_subset _ _) (List.drop_subset _ _)
        have hadded : target.getD [] ++ (addItems size
            ((rows.drop offset).take (min b.itemCount pageSize).toNat) b).1 ⊆ rows :=
          List.append_subset.mpr ⟨h, List.Subset.trans (addItems_subset size _ b) hitems⟩
        split
        · exact hadded
        · exact ih _ hadded

theorem chunkEntity_subset {pageSize : Int} (rows : List α) (offset : Int) {b : Budget} :
    (chunkEntity size pageSize rows offset b).1.getD [] ⊆ rows := by
  unfold chunkEntity
  split
  · exact chunkPages_subset size _ _ (List.nil_subset _)
  · exact List.nil_subset _

theorem chunkEntities_subset {offsets : Entity → Int} (es : List Entity)
    {chunk : (e : Entity) → Option (List e.Row)} {b : Budget}
    (h : ∀ e, (chunk e).getD [] ⊆ rows e) (e : Entity) :
    (chunkEntities sizes maxItems rows offsets es chunk b e).getD [] ⊆ rows e := by
  induction es generalizing chunk b with
  | nil => exact h e
  | cons e₁ es ih =>
    unfold chunkEntities
    refine ih fun e' => ?_
    by_cases he : e' = e₁
    · subst he
      rw [Function.update_self]
      exact chunkEntity_subset (sizes e') (rows e') (offsets e')
    · rw [Function.update_of_ne he]
      exact h e'

end Subset

namespace Filled

variable {chunk : (e : Entity) → Option (List e.Row)} {es : List Entity}

/-- The rows of a chunk come first among those that remain. -/
theorem isPrefix (h : Filled rows chunk es) {e : Entity} (he : e ∈ es) :
    (chunk e).getD [] <+: rows e := by
  induction h with
  | nil => cases he
  | all hall _ ih =>
    rcases List.mem_cons.mp he with rfl | he
    · exact ⟨[], by rw [hall, Option.getD_some, List.append_nil]⟩
    · exact ih he
  | part hpart hpre _ hrest =>
    rcases List.mem_cons.mp he with rfl | he
    · rw [hpart, Option.getD_some]
      exact hpre
    · rw [hrest e he]
      exact List.nil_prefix

/-- A kind has rows in the chunk only when the chunk holds all of the kinds before it. -/
theorem before (h : Filled rows chunk es) {pre post : List Entity} {e : Entity}
    (hes : es = pre ++ e :: post) (hrows : (chunk e).getD [] ≠ []) {p : Entity} (hp : p ∈ pre) :
    chunk p = some (rows p) := by
  induction h generalizing pre with
  | nil => simp at hes
  | all hall _ ih =>
    cases pre with
    | nil => cases hp
    | cons e₁ pre =>
      rw [List.cons_append, List.cons.injEq] at hes
      obtain ⟨rfl, hes⟩ := hes
      rcases List.mem_cons.mp hp with rfl | hp
      · exact hall
      · exact ih hes hp
  | part _ _ _ hrest =>
    cases pre with
    | nil => cases hp
    | cons e₁ pre =>
      rw [List.cons_append, List.cons.injEq] at hes
      rw [hrest e (by rw [hes.2]; simp)] at hrows
      exact absurd rfl hrows

/-- A chunk without rows is the one after the last row. -/
theorem empty_iff (h : Filled rows chunk es) :
    (∀ e ∈ es, chunk e = some []) ↔ ∀ e ∈ es, rows e = [] := by
  induction h with
  | nil => simp
  | all hall _ ih => simp only [List.forall_mem_cons, ih, hall, Option.some.injEq]
  | part hpart hpre hsome _ =>
    simp only [List.forall_mem_cons, hpart, Option.some.injEq]
    constructor
    · rintro ⟨hnil, _⟩
      exact absurd hnil hsome
    · rintro ⟨hnil, _⟩
      rw [hnil, List.prefix_nil] at hpre
      exact absurd hpre hsome

/-- As long as rows remain, the chunk has one. -/
theorem progress (h : Filled rows chunk es) (hrows : ¬∀ e ∈ es, rows e = []) :
    ∃ e ∈ es, (chunk e).getD [] ≠ [] := by
  induction h with
  | nil => simp at hrows
  | @all e es hall _ ih =>
    by_cases hnil : rows e = []
    · obtain ⟨e', he', hne⟩ := ih fun hall' => hrows (List.forall_mem_cons.mpr ⟨hnil, hall'⟩)
      exact ⟨e', List.mem_cons_of_mem _ he', hne⟩
    · exact ⟨e, List.mem_cons_self, by rw [hall, Option.getD_some]; exact hnil⟩
  | @part e es part hpart _ hsome _ =>
    exact ⟨e, List.mem_cons_self, by rw [hpart, Option.getD_some]; exact hsome⟩

end Filled

/-! ## Offsets -/

theorem readOffsets_go (es : List Entity) (hes : es.Nodup) (c acc : Entity → Int) :
    readOffsets.go (es.map fun e => (e.name, c e)) es acc =
      .ok fun e => if e ∈ es then c e else acc e := by
  induction es generalizing acc with
  | nil => simp [readOffsets.go]
  | cons e es ih =>
    obtain ⟨hnew, hes⟩ := List.nodup_cons.mp hes
    unfold readOffsets.go
    simp only [List.map_cons, bne_self_eq_false, Bool.false_eq_true, if_false]
    rw [ih hes]
    congr 1
    funext e'
    by_cases he : e' = e
    · subst he
      simp [hnew]
    · by_cases hmem : e' ∈ es <;> simp [he, hmem]

/-- Offsets that name every kind in order are taken as they are. -/
theorem readOffsets_all (c : Entity → Int) :
    readOffsets (Entity.all.map fun e => (e.name, c e)) = .ok c := by
  unfold readOffsets
  rw [readOffsets_go Entity.all (by decide)]
  congr 1
  funext e
  rw [if_pos (Entity.mem_all e)]

end WalletToolbox.Storage
