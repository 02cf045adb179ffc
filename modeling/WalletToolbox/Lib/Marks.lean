import Mathlib.Data.List.TakeWhile
import Mathlib.Tactic.Common

/-! # Texts that agree on their marks

Some characters are marks, which divide a text into parts.
A rewriting that changes the other characters one by one, each to some others, keeps the marks and
the parts between them, so whatever looks for marks only finds the same in both texts. -/

namespace WalletToolbox.Lib

variable {α : Type} {Mark : α → Prop}

/-- The same marks in the same places, and something else instead of each other character. -/
inductive Alike (Mark : α → Prop) : List α → List α → Prop where
  | nil : Alike Mark [] []
  | mark {c : α} {s t : List α} : Mark c → Alike Mark s t → Alike Mark (c :: s) (c :: t)
  | text {c : α} {piece s t : List α} : ¬Mark c → piece ≠ [] → (∀ d ∈ piece, ¬Mark d) →
    Alike Mark s t → Alike Mark (c :: s) (piece ++ t)

namespace Alike

variable {s t s' t' : List α} {c : α}

theorem eq_nil_iff (h : Alike Mark s t) : s = [] ↔ t = [] := by
  cases h with
  | nil => rfl
  | mark => simp
  | text _ hne => simp [hne]

theorem mem_iff (h : Alike Mark s t) (hc : Mark c) : c ∈ s ↔ c ∈ t := by
  induction h with
  | nil => rfl
  | mark _ _ ih => rw [List.mem_cons, List.mem_cons, ih]
  | text hd _ hpiece _ ih =>
    rw [List.mem_cons, List.mem_append, ih]
    refine or_congr (iff_of_false ?_ fun hmem => hpiece c hmem hc) Iff.rfl
    rintro rfl
    exact hd hc

theorem count_eq [DecidableEq α] (h : Alike Mark s t) (hc : Mark c) : s.count c = t.count c := by
  induction h with
  | nil => rfl
  | mark _ _ ih => rw [List.count_cons, List.count_cons, ih]
  | @text d _ _ _ hd _ hpiece _ ih =>
    have hne : d ≠ c := by
      rintro rfl
      exact hd hc
    rw [List.count_cons_of_ne hne, List.count_append, ih,
      List.count_eq_zero.mpr fun hmem => hpiece c hmem hc, Nat.zero_add]

theorem append (h : Alike Mark s t) (h' : Alike Mark s' t') : Alike Mark (s ++ s') (t ++ t') := by
  induction h with
  | nil => exact h'
  | mark hc _ ih => exact .mark hc ih
  | text hc hne hpiece _ ih =>
    rw [List.append_assoc]
    exact .text hc hne hpiece ih

theorem reverse (h : Alike Mark s t) : Alike Mark s.reverse t.reverse := by
  induction h with
  | nil => exact .nil
  | mark hc _ ih =>
    rw [List.reverse_cons, List.reverse_cons]
    exact ih.append (.mark hc .nil)
  | @text c piece _ _ hc hne hpiece _ ih =>
    rw [List.reverse_cons, List.reverse_append]
    have hreversed : Alike Mark [c] (piece.reverse ++ []) :=
      .text hc (by simpa using hne) (fun d hd => hpiece d (List.mem_reverse.mp hd)) .nil
    rw [List.append_nil] at hreversed
    exact ih.append hreversed

/-- A test that only marks fail stops both texts at the same mark. -/
theorem span {p : α → Bool} (hp : ∀ c, ¬Mark c → p c = true) (h : Alike Mark s t) :
    Alike Mark (s.takeWhile p) (t.takeWhile p) ∧ Alike Mark (s.dropWhile p) (t.dropWhile p) := by
  induction h with
  | nil => exact ⟨.nil, .nil⟩
  | @mark c s t hc h ih =>
    by_cases hpc : p c
    · rw [List.takeWhile_cons_of_pos hpc, List.takeWhile_cons_of_pos hpc,
        List.dropWhile_cons_of_pos hpc, List.dropWhile_cons_of_pos hpc]
      exact ⟨.mark hc ih.1, ih.2⟩
    · rw [List.takeWhile_cons_of_neg hpc, List.takeWhile_cons_of_neg hpc,
        List.dropWhile_cons_of_neg hpc, List.dropWhile_cons_of_neg hpc]
      exact ⟨.nil, .mark hc h⟩
  | text hc hne hpiece _ ih =>
    have hall : ∀ d ∈ _, p d = true := fun d hd => hp d (hpiece d hd)
    rw [List.takeWhile_cons_of_pos (hp _ hc), List.dropWhile_cons_of_pos (hp _ hc),
      List.takeWhile_append_of_pos hall, List.dropWhile_append_of_pos hall]
    exact ⟨.text hc hne hpiece ih.1, ih.2⟩

theorem tail_of_mark (h : Alike Mark (c :: s) t) (hc : Mark c) :
    ∃ t', t = c :: t' ∧ Alike Mark s t' := by
  cases h with
  | mark _ h => exact ⟨_, rfl, h⟩
  | text hnot => exact absurd hc hnot

theorem tail_of_mark' (h : Alike Mark s (c :: t)) (hc : Mark c) :
    ∃ s', s = c :: s' ∧ Alike Mark s' t := by
  generalize hct : c :: t = ct at h
  cases h with
  | nil => cases hct
  | mark _ h =>
    obtain ⟨rfl, rfl⟩ := List.cons.inj hct
    exact ⟨_, rfl, h⟩
  | text _ hne hpiece =>
    obtain ⟨d, piece, rfl⟩ := List.exists_cons_of_ne_nil hne
    obtain ⟨rfl, -⟩ := List.cons.inj hct
    exact absurd hc (hpiece c List.mem_cons_self)

/-- A mark divides both texts. -/
theorem divide (h : Alike Mark (s ++ c :: s') t) (hc : Mark c) :
    ∃ u u', t = u ++ c :: u' ∧ Alike Mark s u ∧ Alike Mark s' u' := by
  generalize hs : s ++ c :: s' = whole at h
  induction h generalizing s with
  | nil => simp at hs
  | @mark d r t hd h ih =>
    cases s with
    | nil =>
      obtain ⟨rfl, rfl⟩ := List.cons.inj hs
      exact ⟨[], t, rfl, .nil, h⟩
    | cons e s =>
      obtain ⟨rfl, hr⟩ := List.cons.inj hs
      obtain ⟨u, u', rfl, hu, hu'⟩ := ih hr
      exact ⟨e :: u, u', rfl, .mark hd hu, hu'⟩
  | @text d piece r t hd hne hpiece h ih =>
    cases s with
    | nil =>
      obtain ⟨rfl, -⟩ := List.cons.inj hs
      exact absurd hc hd
    | cons e s =>
      obtain ⟨rfl, hr⟩ := List.cons.inj hs
      obtain ⟨u, u', rfl, hu, hu'⟩ := ih hr
      exact ⟨piece ++ u, u', (List.append_assoc _ _ _).symm, .text hd hne hpiece hu, hu'⟩

theorem head?_iff (h : Alike Mark s t) (hc : Mark c) : s.head? = some c ↔ t.head? = some c := by
  rw [List.head?_eq_some_iff, List.head?_eq_some_iff]
  constructor
  · rintro ⟨s', rfl⟩
    obtain ⟨t', ht, -⟩ := h.tail_of_mark hc
    exact ⟨t', ht⟩
  · rintro ⟨t', rfl⟩
    obtain ⟨s', hs, -⟩ := h.tail_of_mark' hc
    exact ⟨s', hs⟩

/-- A property of marks only holds of all characters of both texts or of neither. -/
theorem all_iff {p : α → Bool} (hp : ∀ c, p c = true → Mark c) (h : Alike Mark s t) :
    s.all p = t.all p := by
  have hnot : ∀ {c}, ¬Mark c → p c = false := fun hc => Bool.eq_false_iff.mpr fun hpc => hc (hp _ hpc)
  induction h with
  | nil => rfl
  | mark _ _ ih => rw [List.all_cons, List.all_cons, ih]
  | text hc hne hpiece _ _ =>
    obtain ⟨d, piece, rfl⟩ := List.exists_cons_of_ne_nil hne
    rw [List.cons_append, List.all_cons, List.all_cons, hnot hc,
      hnot (hpiece d List.mem_cons_self), Bool.false_and, Bool.false_and]

theorem refl [DecidablePred Mark] (s : List α) : Alike Mark s s := by
  induction s with
  | nil => exact .nil
  | cons c s ih =>
    by_cases hc : Mark c
    · exact .mark hc ih
    · have hpiece : ∀ d ∈ [c], ¬Mark d := fun d hd => List.mem_singleton.mp hd ▸ hc
      exact .text hc (List.cons_ne_nil _ _) hpiece ih

end Alike

end WalletToolbox.Lib
