import WalletToolbox.Lib.Table
import WalletToolbox.Lib.Wp

/-! # Sweeps by offset

A loop that reads a selection page by page, by offset, and treats the rows of a page before it reads
the next one.
The rows that leave the selection move the later ones forward, so the next page begins that many
rows too late.
`seen` and `passedOver` are the rows on either side of this, when `leaves` says which rows leave. -/

namespace WalletToolbox.Lib

section Swept

variable {σ α : Type}

/-- The rows that a sweep reads and the state it ends in. -/
def swept (n : Nat) (sel : σ → List α) (turn : σ → List α → σ) : Nat → Nat → σ → List α × σ
  | 0, _, s => ([], s)
  | fuel + 1, offset, s =>
    let page := ((sel s).drop offset).take n
    if page.length < n then (page, turn s page)
    else
      let rest := swept n sel turn fuel (offset + n) (turn s page)
      (page ++ rest.1, rest.2)

/-- The rows of all pages. -/
def seen (n : Nat) (leaves : α → Bool) (xs : List α) : List α :=
  if 0 < n ∧ n ≤ xs.length then
    xs.take n ++ seen n leaves (xs.drop (n + (xs.take n).countP leaves))
  else xs
termination_by xs.length

/-- The rows behind each full page that no page holds. -/
def passedOver (n : Nat) (leaves : α → Bool) (xs : List α) : List α :=
  if 0 < n ∧ n ≤ xs.length then
    (xs.drop n).take ((xs.take n).countP leaves) ++
      passedOver n leaves (xs.drop (n + (xs.take n).countP leaves))
  else []
termination_by xs.length

/-- A turn keeps the rows behind its page, and of the page those that do not leave. -/
def Drains (sel : σ → List α) (turn : σ → List α → σ) (leaves : α → Bool) : Prop :=
  ∀ s before page behind, sel s = before ++ page ++ behind →
    ∃ before', before'.length + page.countP leaves = before.length + page.length ∧
      sel (turn s page) = before' ++ behind

variable {n : Nat} {sel : σ → List α} {turn : σ → List α → σ} {leaves : α → Bool} {xs : List α}

/-- No row is seen twice, and none is both seen and passed over. -/
theorem seen_append_passedOver_perm (n : Nat) (leaves : α → Bool) (xs : List α) :
    (seen n leaves xs ++ passedOver n leaves xs).Perm xs := by
  induction xs using seen.induct n leaves with
  | case1 xs h ih =>
    rw [seen, passedOver, if_pos h, if_pos h]
    generalize (xs.take n).countP leaves = gone at ih ⊢
    have hsplit : xs.take n ++ ((xs.drop n).take gone ++ xs.drop (n + gone)) = xs := by
      rw [← List.drop_drop, List.take_append_drop, List.take_append_drop]
    conv_rhs => rw [← hsplit]
    rw [List.append_assoc]
    refine List.Perm.append_left _ ?_
    refine List.perm_append_comm_assoc _ _ _ |>.trans ?_
    exact List.Perm.append_left _ ih
  | case2 xs h =>
    rw [seen, passedOver, if_neg h, if_neg h, List.append_nil]

theorem seen_of_short (h : xs.length < n) : seen n leaves xs = xs := by
  rw [seen, if_neg (by omega)]

/-- Where every row of a page leaves, more than one page is more than a sweep reads. -/
theorem passedOver_all_iff (hn : 0 < n) : passedOver n (fun _ => true) xs = [] ↔ xs.length ≤ n := by
  rw [passedOver]
  by_cases h : n ≤ xs.length
  · have hcount : (xs.take n).countP (fun _ => true) = n := by
      rw [List.countP_true, List.length_take, Nat.min_eq_left h]
    rw [if_pos ⟨hn, h⟩, hcount, List.append_eq_nil_iff, List.take_eq_nil_iff, List.drop_eq_nil_iff]
    constructor
    · rintro ⟨hzero | hle, -⟩
      · omega
      · exact hle
    · intro hle
      refine ⟨.inr hle, ?_⟩
      rw [List.drop_eq_nil_of_le (by omega), passedOver, if_neg (by simp; omega)]
  · rw [if_neg (fun hboth => h hboth.2)]
    exact iff_of_true rfl (by omega)

/-- A turn that takes exactly the rows of its page out of a selection without repetitions. -/
theorem drains_of_removed {κ : Type} [DecidableEq κ] {k : α → κ} (hnodup : ∀ s, ((sel s).map k).Nodup)
    (hturn : ∀ s page, sel (turn s page) = (sel s).filter fun a => !(page.map k).contains (k a)) :
    Drains sel turn fun _ => true := by
  intro s before page behind hsplit
  refine ⟨before, by rw [List.countP_true], ?_⟩
  have h := hnodup s
  rw [hsplit, List.map_append, List.map_append, List.nodup_append, List.nodup_append] at h
  obtain ⟨⟨-, -, hbefore⟩, -, hbehind⟩ := h
  rw [hturn, hsplit, List.filter_append, List.filter_append]
  have hkeep : before.filter (fun a => !(page.map k).contains (k a)) = before := by
    refine List.filter_eq_self.mpr fun a ha => ?_
    have hnot : k a ∉ page.map k := fun hmem =>
      hbefore _ (List.mem_map_of_mem ha) _ hmem rfl
    simpa using hnot
  have hgone : page.filter (fun a => !(page.map k).contains (k a)) = [] := by
    refine List.filter_eq_nil_iff.mpr fun a ha => ?_
    simpa using ⟨a, ha, rfl⟩
  have hstay : behind.filter (fun a => !(page.map k).contains (k a)) = behind := by
    refine List.filter_eq_self.mpr fun a ha => ?_
    have hnot : k a ∉ page.map k := fun hmem =>
      hbehind _ (List.mem_append_right _ hmem) _ (List.mem_map_of_mem ha) rfl
    simpa using hnot
  rw [hkeep, hgone, hstay, List.append_nil]

/-- What a sweep with enough turns reads. -/
theorem swept_seen (hn : 0 < n) (h : Drains sel turn leaves) {fuel offset : Nat} {s : σ}
    (hfuel : ((sel s).drop offset).length < fuel) :
    (swept n sel turn fuel offset s).1 = seen n leaves ((sel s).drop offset) := by
  induction fuel generalizing offset s with
  | zero => exact absurd hfuel (Nat.not_lt_zero _)
  | succ fuel ih =>
    rw [swept]
    by_cases hshort : (((sel s).drop offset).take n).length < n
    · simp only [if_pos hshort]
      rw [List.length_take] at hshort
      rw [seen_of_short (by omega), List.take_of_length_le (by omega)]
    · simp only [if_neg hshort]
      have hlen : n ≤ ((sel s).drop offset).length := by
        rw [List.length_take] at hshort
        omega
      rw [seen, if_pos ⟨hn, hlen⟩]
      have hsplit : sel s = (sel s).take offset ++ ((sel s).drop offset).take n ++
          ((sel s).drop offset).drop n := by
        rw [List.append_assoc, List.take_append_drop, List.take_append_drop]
      obtain ⟨before', hcount, hsel⟩ := h s _ _ _ hsplit
      have hoffset : ((sel s).take offset).length = offset := by
        rw [List.length_drop] at hlen
        rw [List.length_take]
        omega
      have hpage : (((sel s).drop offset).take n).length = n := by
        rw [List.length_take]
        omega
      have hnext : (sel (turn s (((sel s).drop offset).take n))).drop (offset + n) =
          ((sel s).drop offset).drop (n + (((sel s).drop offset).take n).countP leaves) := by
        rw [hoffset, hpage] at hcount
        rw [hsel, ← hcount, List.drop_length_add_append, List.drop_drop]
      rw [ih, hnext]
      rw [hnext, List.length_drop]
      omega

/-- A row is selected in the end unless a page held it and it left. -/
theorem length_swept (h : Drains sel turn leaves) {fuel offset : Nat} {s : σ} :
    (sel (swept n sel turn fuel offset s).2).length +
      (swept n sel turn fuel offset s).1.countP leaves = (sel s).length := by
  induction fuel generalizing offset s with
  | zero => simp [swept]
  | succ fuel ih =>
    have hsplit : sel s = (sel s).take offset ++ ((sel s).drop offset).take n ++
        ((sel s).drop offset).drop n := by
      rw [List.append_assoc, List.take_append_drop, List.take_append_drop]
    obtain ⟨before', hcount, hsel⟩ := h s _ _ _ hsplit
    have hlen := congrArg List.length hsplit
    simp only [List.length_append] at hlen
    rw [swept]
    by_cases hshort : (((sel s).drop offset).take n).length < n
    · simp only [if_pos hshort]
      rw [hsel, List.length_append]
      omega
    · simp only [if_neg hshort]
      have hrest := @ih (offset + n) (turn s (((sel s).drop offset).take n))
      rw [hsel, List.length_append] at hrest
      rw [List.countP_append]
      omega

/-! ## Rows that leave on account of others

Treating a page may also take out rows of earlier pages, so which rows leave is a matter of the whole
page: `out` says which keys a page takes out of the selection. -/

variable {κ : Type} {k : α → κ} {out : List α → κ → Bool} {I : σ → Prop}

/-- The rows behind each full page that no page holds. -/
def overlooked (n : Nat) (k : α → κ) (out : List α → κ → Bool) : Nat → Nat → List α → List α
  | 0, _, _ => []
  | fuel + 1, offset, xs =>
    let page := (xs.drop offset).take n
    if page.length < n then []
    else
      let left := xs.filter fun x => !out page (k x)
      (xs.drop (offset + n)).take (xs.length - left.length) ++ overlooked n k out fuel (offset + n) left

/-- From a state of `I`, a turn takes out the rows that `out` names and keeps the rows behind its page
as they are. -/
def Sheds (I : σ → Prop) (k : α → κ) (sel : σ → List α) (turn : σ → List α → σ)
    (out : List α → κ → Bool) : Prop :=
  ∀ s before page behind, I s → sel s = before ++ page ++ behind → I (turn s page) ∧
    (∀ x ∈ behind, out page (k x) = false) ∧ ∃ kept, sel (turn s page) = kept ++ behind ∧
      kept.map k = ((before ++ page).map k).filter fun i => !out page i

/-- Dropping more than a list holds goes on with the next list. -/
theorem drop_append_of_length {front behind : List α} {m : Nat} (h : front.length ≤ m) :
    (front ++ behind).drop m = behind.drop (m - front.length) := by
  rw [List.drop_append, List.drop_eq_nil_of_le h, List.nil_append]

/-- After a turn the rows behind the page are those of the first list that are left behind it. -/
theorem Sheds.next (h : Sheds I k sel turn out) {offset : Nat} {s : σ} (hs : I s)
    (hkeys : (sel s).map k = xs.map k) (hdrop : (sel s).drop offset = xs.drop offset)
    (hfull : offset + n ≤ xs.length) :
    let page := (xs.drop offset).take n
    let left := xs.filter fun x => !out page (k x)
    I (turn s page) ∧ (sel (turn s page)).map k = left.map k ∧
      (sel (turn s page)).drop (offset + n) = left.drop (offset + n) ∧
      left.drop (offset + n) = (xs.drop (offset + n)).drop (xs.length - left.length) := by
  intro page left
  have hsplit : sel s = (sel s).take offset ++ page ++ xs.drop (offset + n) := by
    conv_lhs => rw [← List.take_append_drop offset (sel s), hdrop,
      ← List.take_append_drop n (xs.drop offset), List.drop_drop]
    rw [List.append_assoc]
  obtain ⟨hnext, hbehind, kept, hsel, hkept⟩ := h s _ _ _ hs hsplit
  have hfront : (xs.take (offset + n)).map k = ((sel s).take offset ++ page).map k := by
    refine List.append_cancel_right (?_ : _ ++ (xs.drop (offset + n)).map k = _)
    rw [← List.map_append, ← List.map_append, List.take_append_drop, ← hsplit, hkeys]
  have hleft : left = (xs.take (offset + n)).filter (fun x => !out page (k x)) ++
      xs.drop (offset + n) := by
    have hlast : (xs.drop (offset + n)).filter (fun x => !out page (k x)) = xs.drop (offset + n) :=
      List.filter_eq_self.mpr fun x hx => by rw [hbehind x hx]; rfl
    conv_rhs => rw [← hlast, ← List.filter_append, List.take_append_drop]
  have hkept' : kept.map k = ((xs.take (offset + n)).filter fun x => !out page (k x)).map k := by
    rw [hkept, ← hfront, List.filter_map]
    rfl
  have hlength : kept.length = ((xs.take (offset + n)).filter fun x => !out page (k x)).length := by
    simpa only [List.length_map] using congrArg List.length hkept'
  have hle : ((xs.take (offset + n)).filter fun x => !out page (k x)).length ≤ offset + n :=
    Nat.le_trans (List.length_filter_le _ _) (List.length_take_le _ _)
  refine ⟨hnext, ?_, ?_, ?_⟩
  · rw [hsel, hleft, List.map_append, List.map_append, hkept']
  · rw [hsel, hleft, drop_append_of_length (by omega), drop_append_of_length hle, hlength]
  · have hgone : xs.length - left.length =
        offset + n - ((xs.take (offset + n)).filter fun x => !out page (k x)).length := by
      rw [hleft, List.length_append, List.length_drop]
      omega
    rw [hgone, ← drop_append_of_length hle, ← hleft]

/-- A sweep with enough turns reads each row once or overlooks it. -/
theorem swept_append_overlooked_perm (hn : 0 < n) (h : Sheds I k sel turn out) {fuel offset : Nat} {s : σ}
    (hs : I s) (hkeys : (sel s).map k = xs.map k) (hdrop : (sel s).drop offset = xs.drop offset)
    (hfuel : (xs.drop offset).length < fuel) :
    ((swept n sel turn fuel offset s).1 ++ overlooked n k out fuel offset xs).Perm (xs.drop offset) := by
  induction fuel generalizing offset s xs with
  | zero => exact absurd hfuel (Nat.not_lt_zero _)
  | succ fuel ih =>
    rw [swept, overlooked]
    simp only [hdrop]
    by_cases hshort : ((xs.drop offset).take n).length < n
    · simp only [if_pos hshort]
      rw [List.length_take] at hshort
      rw [List.append_nil, List.take_of_length_le (by omega)]
    · simp only [if_neg hshort]
      rw [List.length_take, List.length_drop] at hshort
      obtain ⟨hs', hkeys', hdrop', hnext⟩ := h.next (n := n) hs hkeys hdrop (by omega)
      have hrest := ih hs' hkeys' hdrop' (by
        rw [hnext, List.length_drop, List.length_drop]
        rw [List.length_drop] at hfuel
        omega)
      rw [hnext] at hrest
      rw [List.append_assoc]
      conv_rhs => rw [← List.take_append_drop n (xs.drop offset), List.drop_drop]
      refine List.Perm.append_left _ ((List.perm_append_comm_assoc _ _ _).trans ?_)
      refine (List.Perm.append_left _ hrest).trans ?_
      rw [List.take_append_drop]

end Swept

/-! ## Selections of a table -/

/-- Each eligible row is passed on exactly once. -/
def PassesEach {α : Type} [Keyed α] (eligible : α → Bool) (rows passed : List α) : Prop :=
  ∀ r ∈ rows, eligible r = true → (passed.map key).count (key r) = 1

/-- When each row is read once or overlooked, all eligible ones are passed on exactly when none of
them is overlooked and all are let through. -/
theorem passesEach_iff {α : Type} [Keyed α] {eligible through : α → Bool} {rows read missed : List α}
    (hperm : (read ++ missed).Perm rows) (hnodup : (rows.map key).Nodup) :
    PassesEach eligible rows (read.filter through) ↔
      ∀ r ∈ rows, eligible r = true → through r = true ∧ r ∉ missed := by
  have hall := (hperm.map key).nodup_iff.mpr hnodup
  rw [List.map_append, List.nodup_append] at hall
  obtain ⟨hread, -, hapart⟩ := hall
  refine forall₂_congr fun r hr => imp_congr_right fun _ => ?_
  have hkeys : ((read.filter through).map key).Nodup := hread.sublist (List.filter_sublist.map key)
  constructor
  · intro hcount
    have hmem : key r ∈ (read.filter through).map key := by
      rw [← List.count_pos_iff, hcount]
      exact Nat.one_pos
    obtain ⟨x, hx, hkey⟩ := List.mem_map.mp hmem
    obtain ⟨hx, hthrough⟩ := List.mem_filter.mp hx
    obtain rfl : x = r :=
      List.inj_on_of_nodup_map hnodup (hperm.mem_iff.mp (List.mem_append_left _ hx)) hr hkey
    exact ⟨hthrough, fun hover => hapart _ (List.mem_map_of_mem hx) _ (List.mem_map_of_mem hover) rfl⟩
  · rintro ⟨hthrough, hover⟩
    have hin : r ∈ read := (List.mem_append.mp (hperm.mem_iff.mpr hr)).resolve_right hover
    exact List.count_eq_one_of_mem hkeys
      (List.mem_map_of_mem (List.mem_filter.mpr ⟨hin, hthrough⟩))

/-- A page takes out the rows that it holds and that leave. -/
def takenBy {α : Type} [Keyed α] (leaves : α → Bool) (page : List α) (i : Nat) : Bool :=
  page.any fun r => key r == i && leaves r

namespace Table

variable {α : Type} [Keyed α] {p leaves : α → Bool} {ids ids' : List Nat} {t t₁ t' : Table α}

/-- Only the rows with the given keys are rewritten, and of these exactly those that do not leave are
selected. -/
def Treated (p leaves : α → Bool) (ids : List Nat) (t t' : Table α) : Prop :=
  ∃ f : α → α, t'.rows = t.rows.map f ∧ (∀ x, key (f x) = key x) ∧
    ∀ x ∈ t, (key x ∉ ids → f x = x) ∧ (key x ∈ ids → p (f x) = !leaves x)

theorem Treated.nothing (t : Table α) : Treated p leaves [] t t :=
  ⟨id, (List.map_id _).symm, fun _ => rfl, fun _ _ => ⟨fun _ => rfl, fun h => nomatch h⟩⟩

theorem Treated.mem (h : Treated p leaves ids t t') {x : α} (hx : x ∈ t) (hid : key x ∉ ids) :
    x ∈ t' := by
  obtain ⟨f, hrows, -, hf⟩ := h
  rw [mem_def, hrows, ← (hf x hx).1 hid]
  exact List.mem_map_of_mem hx

/-- Different rows may be treated one after the other. -/
theorem Treated.append (h : Treated p leaves ids t t₁) (h' : Treated p leaves ids' t₁ t')
    (hdisjoint : ∀ i ∈ ids, i ∉ ids') : Treated p leaves (ids ++ ids') t t' := by
  have hstay : ∀ x ∈ t, key x ∉ ids → x ∈ t₁ := fun x hx hid => h.mem hx hid
  obtain ⟨f, hrows, hkey, hf⟩ := h
  obtain ⟨f', hrows', hkey', hf'⟩ := h'
  refine ⟨f' ∘ f, ?_, fun x => (hkey' _).trans (hkey x), fun x hx => ?_⟩
  · rw [hrows', hrows, List.map_map]
  have hmem : f x ∈ t₁ := by
    rw [mem_def, hrows]
    exact List.mem_map_of_mem hx
  by_cases hid : key x ∈ ids
  · have hsame : f' (f x) = f x := (hf' _ hmem).1 (by
      rw [hkey]
      exact hdisjoint _ hid)
    refine ⟨fun hnot => absurd (List.mem_append_left _ hid) hnot, fun _ => ?_⟩
    rw [Function.comp_apply, hsame]
    exact (hf x hx).2 hid
  · have hsame : f x = x := (hf x hx).1 hid
    rw [Function.comp_apply, hsame]
    refine ⟨fun hnot => (hf' x (hstay x hx hid)).1 fun h => hnot (List.mem_append_right _ h),
      fun hin => ?_⟩
    rcases List.mem_append.mp hin with hin | hin
    · exact absurd hin hid
    · exact (hf' x (hstay x hx hid)).2 hin

/-- A row that does not leave may stay as it is. -/
theorem Treated.keep {r : α} (hr : r ∈ t) (hsel : p r = !leaves r) : Treated p leaves [key r] t t := by
  refine ⟨id, (List.map_id _).symm, fun _ => rfl, fun x hx => ⟨fun _ => rfl, fun hid => ?_⟩⟩
  obtain rfl : x = r := eq_of_key_eq hx hr (List.mem_singleton.mp hid)
  exact hsel

/-- One row is rewritten. -/
theorem Treated.update {r : α} (hr : r ∈ t) {f : α → α} {hf : ∀ r, key (f r) = key r}
    (hsel : p (f r) = !leaves r) :
    Treated p leaves [key r] t (t.update (fun x => key x == key r) f hf) := by
  refine ⟨fun x => if key x == key r then f x else x, rfl, fun x => ?_, fun x hx => ⟨?_, ?_⟩⟩
  · by_cases heq : key x = key r <;> simp [heq, hf]
  · intro hid
    have hne : key x ≠ key r := fun heq => hid (List.mem_singleton.mpr heq)
    simp [hne]
  · intro hid
    obtain rfl : x = r := eq_of_key_eq hx hr (List.mem_singleton.mp hid)
    simpa using hsel

/-- Rows that stay as they are may count as treated when they do not leave. -/
theorem Treated.widen (h : Treated p leaves ids t t') (hsub : ∀ i ∈ ids, i ∈ ids')
    (hstay : ∀ x ∈ t, key x ∈ ids' → key x ∉ ids → p x = !leaves x) :
    Treated p leaves ids' t t' := by
  obtain ⟨f, hrows, hkey, hf⟩ := h
  refine ⟨f, hrows, hkey, fun x hx => ⟨fun hid => (hf x hx).1 fun h => hid (hsub _ h), fun hid => ?_⟩⟩
  by_cases hin : key x ∈ ids
  · exact (hf x hx).2 hin
  · rw [(hf x hx).1 hin]
    exact hstay x hx hid hin

/-- What is selected after a page has been treated. -/
theorem Treated.find {before page behind : List α} (h : Treated p leaves (page.map key) t t')
    (hsplit : t.find p = before ++ page ++ behind) :
    (∀ x ∈ behind, takenBy leaves page (key x) = false) ∧ ∃ kept, t'.find p = kept ++ behind ∧
      kept.map key = ((before ++ page).map key).filter fun i => !takenBy leaves page i := by
  obtain ⟨f, hrows, hkey, hf⟩ := h
  have hmem : ∀ x ∈ before ++ page ++ behind, x ∈ t ∧ p x = true := by
    intro x hx
    rw [← hsplit] at hx
    exact mem_find.mp hx
  have hnodup := t.nodup_key_find p
  rw [hsplit, List.map_append, List.map_append, List.nodup_append, List.nodup_append] at hnodup
  obtain ⟨⟨-, hpage, hbefore⟩, -, hbehind⟩ := hnodup
  -- the rows of the page are the rows with these keys
  have hout : ∀ x ∈ t, key x ∈ page.map key → x ∈ page := by
    intro x hx hid
    obtain ⟨r, hr, hkey⟩ := List.mem_map.mp hid
    exact eq_of_key_eq (hmem r (by simp [hr])).1 hx hkey ▸ hr
  have hfixed : ∀ x ∈ t, x ∉ page → f x = x := fun x hx hnot =>
    (hf x hx).1 fun hid => hnot (hout x hx hid)
  have hoff : ∀ x ∈ before ++ behind, x ∈ t ∧ p x = true ∧ key x ∉ page.map key := by
    intro x hx
    rcases List.mem_append.mp hx with hx | hx
    · obtain ⟨ht, hp⟩ := hmem x (by simp [hx])
      exact ⟨ht, hp, fun hid => hbefore _ (List.mem_map_of_mem hx) _ hid rfl⟩
    · obtain ⟨ht, hp⟩ := hmem x (by simp [hx])
      exact ⟨ht, hp, fun hid => hbehind _ (List.mem_append_right _ hid) _ (List.mem_map_of_mem hx) rfl⟩
  have hnot : ∀ x ∈ before ++ behind, takenBy leaves page (key x) = false := by
    intro x hx
    refine List.any_eq_false.mpr fun r hr => ?_
    have hne : key r ≠ key x := fun heq => (hoff x hx).2.2 (heq ▸ List.mem_map_of_mem hr)
    simp [hne]
  have hleaves : ∀ x ∈ page, takenBy leaves page (key x) = leaves x := by
    intro x hx
    cases hl : leaves x with
    | true => exact List.any_eq_true.mpr ⟨x, hx, by simp [hl]⟩
    | false =>
      refine List.any_eq_false.mpr fun r hr => ?_
      by_cases heq : key r = key x
      · rw [eq_of_key_eq (hmem r (by simp [hr])).1 (hmem x (by simp [hx])).1 heq, hl]
        simp
      · simp [heq]
  -- what is selected afterwards was selected before
  have hsel : t'.find p = ((before ++ page ++ behind).filter fun x => p (f x)).map f := by
    rw [Table.find, hrows, List.filter_map, ← hsplit, Table.find, List.filter_filter]
    refine congrArg (List.map f) (List.filter_congr fun x hx => ?_)
    by_cases hin : x ∈ page
    · simp [(hmem x (by simp [hin])).2]
    · rw [Function.comp_apply, hfixed x hx hin, Bool.and_self]
  have hkeep : ∀ xs : List α, (∀ x ∈ xs, x ∈ before ++ behind) →
      (xs.filter fun x => p (f x)).map f = xs := by
    intro xs hxs
    have hsame : ∀ x ∈ xs, f x = x := fun x hx => (hf x (hoff x (hxs x hx)).1).1 (hoff x (hxs x hx)).2.2
    rw [List.filter_eq_self.mpr fun x hx => by rw [hsame x hx]; exact (hoff x (hxs x hx)).2.1]
    exact (List.map_congr_left hsame).trans (List.map_id _)
  refine ⟨fun x hx => hnot x (by simp [hx]), before ++ (page.filter fun x => p (f x)).map f, ?_, ?_⟩
  · rw [hsel, List.filter_append, List.filter_append, List.map_append, List.map_append,
      hkeep before fun x hx => by simp [hx], hkeep behind fun x hx => by simp [hx]]
  · rw [List.map_append, List.map_append, List.filter_append]
    congr 1
    · refine (List.filter_eq_self.mpr fun i hi => ?_).symm
      obtain ⟨x, hx, rfl⟩ := List.mem_map.mp hi
      rw [hnot x (by simp [hx])]
      rfl
    · rw [List.filter_map, List.map_map]
      refine (List.map_congr_left fun x _ => hkey x).trans (congrArg _ (List.filter_congr fun x hx => ?_))
      rw [Function.comp_apply, hleaves x hx]
      exact (hf x (hmem x (by simp [hx])).1).2 (List.mem_map_of_mem hx)

end Table

namespace Prog

variable {σ τ ω ε α : Type} {ap : ω → σ → Except ε (Nat × σ)}

/-- Read the rows that `sel` selects in pages of `n` and treat each page; a page that is not full is
the last one. The result are the rows that were read. -/
def sweep (n : Nat) (sel : σ → List α) (treat : List α → Prog σ ω ε Unit) :
    Nat → Nat → Prog σ ω ε (List α)
  | 0, _ => pure []
  | fuel + 1, offset => do
    let page ← ask fun s => ((sel s).drop offset).take n
    if page.isEmpty then pure [] else
    treat page
    if page.length < n then pure page else
    let rest ← sweep n sel treat fuel (offset + n)
    pure (page ++ rest)

/-- The rule for a sweep, when each turn has one effect on the part of the store that matters. -/
theorem wp_sweep {n : Nat} (part : σ → τ) {sel : τ → List α} {turn : τ → List α → τ}
    {treat : List α → Prog σ ω ε Unit} {E : σ → Prop} (hn : 0 < n) (hnone : ∀ t, turn t [] = t)
    (htreat : ∀ page s (Q : Unit → σ → Prop),
      (∀ s', part s' = turn (part s) page → Q () s') → wp ap (treat page) Q E s)
    {fuel offset : Nat} {s : σ} {Q : List α → σ → Prop}
    (h : ∀ s', part s' = (swept n sel turn fuel offset (part s)).2 →
      Q (swept n sel turn fuel offset (part s)).1 s') :
    wp ap (sweep n (fun s => sel (part s)) treat fuel offset) Q E s := by
  induction fuel generalizing s offset Q with
  | zero => exact h s rfl
  | succ fuel ih =>
    unfold sweep
    rw [swept] at h
    rw [wp_bind, wp_ask]
    by_cases hempty : (((sel (part s)).drop offset).take n).isEmpty = true
    · rw [if_pos hempty]
      have hnil := List.isEmpty_iff.mp hempty
      rw [hnil, List.length_nil, if_pos hn, hnone] at h
      exact h s rfl
    · rw [if_neg hempty, wp_bind]
      refine htreat _ s _ fun s₁ h₁ => ?_
      by_cases hshort : (((sel (part s)).drop offset).take n).length < n
      · rw [if_pos hshort]
        rw [if_pos hshort] at h
        exact h s₁ h₁
      · rw [if_neg hshort, wp_bind]
        rw [if_neg hshort, ← h₁] at h
        exact ih fun s' hs' => h s' hs'

end Prog

end WalletToolbox.Lib
