import Mathlib.Algebra.Ring.Int.Defs
import WalletToolbox.Lib.Table

/-! # Sums over a table

What an insert and the rewriting of one row add to a sum over the rows. -/

namespace WalletToolbox.Lib.Table

variable {α : Type} [Keyed α] {t : Table α}

/-- The sum of a weight over the rows. -/
def total (t : Table α) (w : α → Int) : Int := (t.rows.map w).sum

theorem total_insert (w : α → Int) (mk : Nat → α) (hk : ∀ n, key (mk n) = n) :
    (t.insert mk hk).total w = t.total w + w (mk (t.lastId + 1)) := by
  simp [total, insert]

/-- Only one row has the key of a given one. -/
theorem total_update_key {a : α} (ha : a ∈ t) {f : α → α} {hf : ∀ r, key (f r) = key r}
    (w : α → Int) :
    (t.update (fun r => key r == key a) f hf).total w = t.total w + (w (f a) - w a) := by
  have hmem : a ∈ t.rows := ha
  have hsorted := t.sorted
  simp only [total, update]
  generalize t.rows = rows at hmem hsorted
  induction rows with
  | nil => cases hmem
  | cons r rest ih =>
    obtain ⟨hr, hrest⟩ := List.pairwise_cons.mp hsorted
    rcases List.mem_cons.mp hmem with rfl | hmem
    · have hothers : rest.map (fun r => if key r == key a then f r else r) = rest := by
        refine (List.map_congr_left fun b hb => ?_).trans (List.map_id _)
        have hne : key b ≠ key a := (hr b hb).ne'
        simp [hne]
      simp only [List.map_cons, hothers, BEq.rfl, if_true, List.sum_cons]
      omega
    · have hne : key r ≠ key a := (hr a hmem).ne
      have htail := ih hmem hrest
      simp only [List.map_cons, beq_iff_eq, hne, if_false, List.sum_cons] at htail ⊢
      omega

/-- The sum over the rows that a query selects. -/
theorem sum_find (p : α → Bool) (v : α → Int) :
    ((t.find p).map v).sum = t.total fun r => if p r then v r else 0 := by
  unfold total find
  induction t.rows with
  | nil => rfl
  | cons r rest ih =>
    rw [List.filter_cons, List.map_cons, List.sum_cons]
    cases hp : p r with
    | true =>
      rw [if_pos rfl, if_pos rfl, List.map_cons, List.sum_cons, ih]
    | false =>
      simp only [Bool.false_eq_true, if_false, Int.zero_add]
      exact ih

theorem total_congr {w w' : α → Int} (h : ∀ r ∈ t, w r = w' r) : t.total w = t.total w' :=
  congrArg List.sum (List.map_congr_left h)

end WalletToolbox.Lib.Table
