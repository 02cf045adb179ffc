import Mathlib.Data.List.Basic
import Mathlib.Data.List.Perm.Basic
import Mathlib.Data.List.TakeWhile
import Mathlib.Tactic.Common

/-! # Pages

A list cut into pages, and a listing that pages a list before it filters it.
Such a listing knows the number of matches of the page it looks at only, so it reports the matches
of a short page together with the rows before the page, and a count of its own for a full page.
`PagedExactly` says when these pages and totals are right. -/

namespace WalletToolbox.Lib

variable {α : Type}

/-- The page of `n` items after `k` pages. -/
def page (n : Nat) (xs : List α) (k : Nat) : List α :=
  (xs.drop (k * n)).take n

/-- A list in chunks of `n` items, the last one maybe shorter. -/
def chunks (n : Nat) (xs : List α) : List (List α) :=
  (List.range ((xs.length + n - 1) / n)).map (page n xs)

theorem take_succ_page (n : Nat) (xs : List α) (k : Nat) :
    xs.take ((k + 1) * n) = xs.take (k * n) ++ page n xs k := by
  rw [Nat.succ_mul, List.take_add, page]

theorem flatMap_page (n m : Nat) (xs : List α) :
    (List.range m).flatMap (page n xs) = xs.take (m * n) := by
  induction m with
  | zero => simp
  | succ m ih =>
    rw [List.range_succ, List.flatMap_append, List.flatMap_singleton, ih, take_succ_page]

theorem flatten_chunks {n : Nat} (hn : 0 < n) (xs : List α) : (chunks n xs).flatten = xs := by
  have hcover : xs.length ≤ (xs.length + n - 1) / n * n := by
    have h := Nat.div_add_mod (xs.length + n - 1) n
    have hmod := Nat.mod_lt (xs.length + n - 1) hn
    rw [Nat.mul_comm] at h
    omega
  rw [chunks, ← List.flatMap_def, flatMap_page, List.take_of_length_le hcover]

/-- The chunks before the first one that is not full. -/
theorem takeWhile_chunks {n : Nat} (hn : 0 < n) (xs : List α) :
    ((chunks n xs).takeWhile fun chunk => chunk.length = n) =
      (List.range (xs.length / n)).map (page n xs) := by
  have hdiv := Nat.div_add_mod xs.length n
  have hmod := Nat.mod_lt xs.length hn
  have hlength : ∀ k, (page n xs k).length = min n (xs.length - k * n) := fun k => by
    rw [page, List.length_take, List.length_drop]
  have hfull : ∀ chunk ∈ (List.range (xs.length / n)).map (page n xs), chunk.length = n := by
    intro chunk hchunk
    obtain ⟨k, hk, rfl⟩ := List.mem_map.mp hchunk
    have hle : (k + 1) * n ≤ xs.length :=
      Nat.le_trans (Nat.mul_le_mul_right _ (List.mem_range.mp hk)) (Nat.div_mul_le_self _ _)
    rw [Nat.succ_mul] at hle
    rw [hlength]
    omega
  rcases Nat.eq_zero_or_pos (xs.length % n) with hzero | hpos
  · have hcount : (xs.length + n - 1) / n = xs.length / n := by
      refine Nat.div_eq_of_lt_le ?_ ?_
      · rw [Nat.mul_comm]
        omega
      · rw [Nat.succ_mul, Nat.mul_comm]
        omega
    rw [chunks, hcount]
    exact List.takeWhile_eq_self_iff.mpr fun chunk hchunk => decide_eq_true (hfull chunk hchunk)
  · have hcount : (xs.length + n - 1) / n = xs.length / n + 1 := by
      refine Nat.div_eq_of_lt_le ?_ ?_
      · rw [Nat.succ_mul, Nat.mul_comm]
        omega
      · rw [Nat.succ_mul, Nat.succ_mul, Nat.mul_comm]
        omega
    rw [chunks, hcount, List.range_succ, List.map_append,
      List.takeWhile_append_of_pos fun chunk hchunk => decide_eq_true (hfull chunk hchunk)]
    have hshort : ¬(page n xs (xs.length / n)).length = n := by
      rw [hlength, Nat.mul_comm]
      omega
    simp [hshort]

/-! ## Pages that are filtered afterwards -/

section Filtered

variable {n m : Nat} {p : α → Bool} {xs : List α}

/-- What a page shows. -/
def filteredPage (n : Nat) (p : α → Bool) (xs : List α) (k : Nat) : List α :=
  (page n xs k).filter p

/-- The total that a page reports, in a counter that wraps around at `m`. -/
def pageTotal (n m : Nat) (p : α → Bool) (xs : List α) (k : Nat) : Nat :=
  if (filteredPage n p xs k).length < n then (k * n + (filteredPage n p xs k).length) % m
  else xs.length % m

/-- All pages but the last show all of their rows, no row after the last page matches, and if a
page is full then all rows are counted. -/
structure PagedExactly (n m : Nat) (p : α → Bool) (xs : List α) : Prop where
  full : ∀ a ∈ xs.take ((xs.filter p).length / n * n), p a = true
  rest : ∀ a ∈ xs.drop (((xs.filter p).length / n + 1) * n), p a = false
  counted : n ≤ (xs.filter p).length → xs.length % m = (xs.filter p).length

/-- The matches of the first `k` pages. -/
def matched (n : Nat) (p : α → Bool) (xs : List α) (k : Nat) : Nat :=
  ((xs.take (k * n)).filter p).length

theorem matched_succ (k : Nat) :
    matched n p xs (k + 1) = matched n p xs k + (filteredPage n p xs k).length := by
  rw [matched, take_succ_page, List.filter_append, List.length_append, matched, filteredPage]

theorem length_filteredPage_le (k : Nat) : (filteredPage n p xs k).length ≤ n :=
  Nat.le_trans (List.length_filter_le p _) (List.length_take_le n _)

theorem matched_add_rest (k : Nat) :
    matched n p xs k + ((xs.drop (k * n)).filter p).length = (xs.filter p).length := by
  rw [matched, ← List.length_append, ← List.filter_append, List.take_append_drop]

/-- Pages that are all full have matched all of their rows. -/
theorem matched_full {K : Nat} (h : ∀ k < K, (filteredPage n p xs k).length = n) :
    matched n p xs K = K * n := by
  induction K with
  | zero => simp [matched]
  | succ K ih =>
    rw [matched_succ, ih fun k hk => h k (Nat.lt_succ_of_lt hk), h K (Nat.lt_succ_self K),
      Nat.succ_mul]

theorem flatMap_filteredPage (K : Nat) :
    (List.range K).flatMap (filteredPage n p xs) = (xs.take (K * n)).filter p := by
  rw [← flatMap_page, List.filter_flatMap]
  rfl

theorem PagedExactly.of_totals (hn : 0 < n) (hm : n < m)
    (h : ∀ k, k * n ≤ (xs.filter p).length → pageTotal n m p xs k = (xs.filter p).length) :
    PagedExactly n m p xs := by
  generalize hM : (xs.filter p).length = M at h
  have hdiv := Nat.div_add_mod M n
  have hmod := Nat.mod_lt M hn
  generalize hK : M / n = K at hdiv
  rw [Nat.mul_comm] at hdiv
  have hbound : M < m := by
    have hfirst := h 0 (by omega)
    unfold pageTotal at hfirst
    split at hfirst
    · rw [← hfirst]
      exact Nat.mod_lt _ (by omega)
    · rw [← hfirst]
      exact Nat.mod_lt _ (by omega)
  -- A page before the last one cannot be short: it would report too little.
  have hfull : ∀ k < K, (filteredPage n p xs k).length = n ∧ xs.length % m = M := by
    intro k hk
    have hkn : (k + 1) * n ≤ K * n := Nat.mul_le_mul_right n hk
    rw [Nat.succ_mul] at hkn
    have htotal := h k (by omega)
    have hle : (filteredPage n p xs k).length ≤ n := length_filteredPage_le k
    unfold pageTotal at htotal
    split at htotal
    · rw [Nat.mod_eq_of_lt (by omega)] at htotal
      omega
    · omega
  have hmatched := matched_full fun k hk => (hfull k hk).1
  have hlast := h K (by omega)
  have hsucc : matched n p xs (K + 1) = _ := matched_succ K
  have hrest : matched n p xs (K + 1) + _ = (xs.filter p).length := matched_add_rest (K + 1)
  rw [hM] at hrest
  unfold pageTotal at hlast
  rw [if_pos (by omega), Nat.mod_eq_of_lt (by omega)] at hlast
  refine ⟨?_, ?_, ?_⟩
  · rw [hM, hK]
    refine List.length_filter_eq_length_iff.mp ?_
    have hle : (xs.take (K * n)).length ≤ K * n := List.length_take_le _ _
    have hge := List.length_filter_le p (xs.take (K * n))
    rw [matched] at hmatched
    omega
  · rw [hM, hK]
    have hnone : (xs.drop ((K + 1) * n)).filter p = [] := List.eq_nil_of_length_eq_zero (by omega)
    intro a ha
    simpa using List.filter_eq_nil_iff.mp hnone a ha
  · rw [hM]
    intro hle
    have hpos : 0 < K := by
      rw [← hK]
      exact Nat.div_pos hle hn
    exact (hfull 0 hpos).2

theorem PagedExactly.totals (hn : 0 < n) (hm : n < m) (h : PagedExactly n m p xs) :
    (∀ k, k * n ≤ (xs.filter p).length → pageTotal n m p xs k = (xs.filter p).length) ∧
    (List.range ((xs.filter p).length / n + 1)).flatMap (filteredPage n p xs) = xs.filter p := by
  obtain ⟨hfull, hrest, hcounted⟩ := h
  have hlength := List.length_filter_le p xs
  have hnone : (xs.drop (((xs.filter p).length / n + 1) * n)).filter p = [] := by
    rw [List.filter_eq_nil_iff]
    intro a ha
    simp [hrest a ha]
  have hall : (List.range ((xs.filter p).length / n + 1)).flatMap (filteredPage n p xs) =
      xs.filter p := by
    rw [flatMap_filteredPage]
    conv_rhs => rw [← List.take_append_drop (((xs.filter p).length / n + 1) * n) xs]
    rw [List.filter_append, hnone, List.append_nil]
  refine ⟨?_, hall⟩
  have hsum : matched n p xs ((xs.filter p).length / n + 1) + _ = (xs.filter p).length :=
    matched_add_rest ((xs.filter p).length / n + 1)
  rw [hnone, List.length_nil] at hsum
  generalize hM : (xs.filter p).length = M at *
  have hdiv := Nat.div_add_mod M n
  have hmod := Nat.mod_lt M hn
  generalize hK : M / n = K at *
  rw [Nat.mul_comm] at hdiv
  have hlast : matched n p xs K = K * n := by
    rw [matched, List.filter_eq_self.mpr hfull, List.length_take]
    omega
  have hsucc : matched n p xs (K + 1) = _ := matched_succ K
  intro k hk
  have hkK : k ≤ K := by
    rw [← hK]
    exact (Nat.le_div_iff_mul_le hn).mpr hk
  rcases Nat.lt_or_eq_of_le hkK with hlt | rfl
  · have hpage : (filteredPage n p xs k).length = n := by
      have hkn : (k + 1) * n ≤ K * n := Nat.mul_le_mul_right n hlt
      rw [Nat.succ_mul] at hkn
      rw [filteredPage, List.filter_eq_self.mpr, page, List.length_take, List.length_drop]
      · omega
      · intro a ha
        refine hfull a ?_
        have hmem : a ∈ xs.take ((k + 1) * n) := by
          rw [take_succ_page]
          exact List.mem_append_right _ ha
        rw [Nat.succ_mul] at hmem
        exact List.take_subset_take_left xs hkn hmem
    have hle : n ≤ M := by
      have : n * 1 ≤ n * K := Nat.mul_le_mul_left n (by omega)
      rw [Nat.mul_comm n K] at this
      omega
    rw [pageTotal, if_neg (by omega)]
    exact hcounted hle
  · have hbound : M < m := by
      by_cases hle : n ≤ M
      · rw [← hcounted hle]
        exact Nat.mod_lt _ (by omega)
      · omega
    rw [pageTotal, if_pos (by omega), Nat.mod_eq_of_lt (by omega)]
    omega

theorem PagedExactly.bound (hn : 0 < n) (hm : n < m) (h : PagedExactly n m p xs) :
    (xs.filter p).length < m := by
  by_cases hle : n ≤ (xs.filter p).length
  · rw [← h.counted hle]
    exact Nat.mod_lt _ (by omega)
  · omega

/-- Without matches every page is empty and reports none. -/
theorem pagedExactly_of_none (hn : 0 < n) (h : xs.filter p = []) : PagedExactly n m p xs where
  full a ha := by
    rw [h, List.length_nil, Nat.zero_div, Nat.zero_mul, List.take_zero] at ha
    cases ha
  rest a ha := by simpa using List.filter_eq_nil_iff.mp h a (List.mem_of_mem_drop ha)
  counted hle := by
    rw [h, List.length_nil] at hle
    omega

/-- While no count wraps around, the pages are right if every row matches, or if the matches are
fewer than a page and all among the rows of the first page. -/
theorem pagedExactly_iff (hn : 0 < n) (hxs : xs.length < m) :
    PagedExactly n m p xs ↔
      (∀ a ∈ xs, p a = true) ∨
      ((xs.filter p).length < n ∧ ∀ a ∈ xs.drop n, p a = false) := by
  constructor
  · intro h
    by_cases hle : n ≤ (xs.filter p).length
    · have hcount := h.counted hle
      rw [Nat.mod_eq_of_lt hxs] at hcount
      exact .inl (List.length_filter_eq_length_iff.mp hcount.symm)
    · have hlt : (xs.filter p).length < n := by omega
      refine .inr ⟨hlt, fun a ha => h.rest a ?_⟩
      rwa [Nat.div_eq_of_lt hlt, Nat.zero_add, Nat.one_mul]
  · rintro (hall | ⟨hlt, hrest⟩)
    · have heq : xs.filter p = xs := List.filter_eq_self.mpr hall
      refine ⟨fun a ha => hall a (List.mem_of_mem_take ha), ?_, ?_⟩
      · have hdiv := Nat.div_add_mod xs.length n
        have hmod := Nat.mod_lt xs.length hn
        rw [Nat.mul_comm] at hdiv
        rw [heq, List.drop_eq_nil_of_le (by rw [Nat.succ_mul]; omega)]
        intro a ha
        cases ha
      · intro _
        rw [heq, Nat.mod_eq_of_lt hxs]
    · refine ⟨?_, ?_, fun hle => absurd hlt (by omega)⟩
      · rw [Nat.div_eq_of_lt hlt, Nat.zero_mul, List.take_zero]
        intro a ha
        cases ha
      · rwa [Nat.div_eq_of_lt hlt, Nat.zero_add, Nat.one_mul]

end Filtered

end WalletToolbox.Lib
