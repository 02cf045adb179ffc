import Mathlib.Data.List.Basic
import Mathlib.Tactic.Common

/-! # Joined fields

Texts joined with a separator that they may contain themselves.
Two joins are the same text when the fields are the same, and else when a boundary between two
fields has moved: the text behind it belongs to the next fields on one side and to this one on the
other. -/

namespace WalletToolbox.Lib.Fields

/-- Where two joins of two parts agree. -/
theorem append_sep_eq_iff {α : Type} {c : α} {a b a' b' : List α} :
    a ++ c :: b = a' ++ c :: b' ↔ (a = a' ∧ b = b') ∨
      (∃ t, a' = a ++ c :: t ∧ b = t ++ c :: b') ∨ ∃ t, a = a' ++ c :: t ∧ b' = t ++ c :: b := by
  constructor
  · intro h
    rcases List.append_eq_append_iff.mp h with ⟨s, ha, hb⟩ | ⟨s, ha, hb⟩
    · cases s with
      | nil =>
        rw [List.append_nil] at ha
        exact .inl ⟨ha.symm, (List.cons.inj hb).2⟩
      | cons d t =>
        obtain ⟨rfl, htail⟩ := List.cons.inj hb
        exact .inr (.inl ⟨t, ha, htail⟩)
    · cases s with
      | nil =>
        rw [List.append_nil] at ha
        exact .inl ⟨ha, (List.cons.inj hb).2.symm⟩
      | cons d t =>
        obtain ⟨rfl, htail⟩ := List.cons.inj hb
        exact .inr (.inr ⟨t, ha, htail⟩)
  · rintro (⟨rfl, rfl⟩ | ⟨t, rfl, rfl⟩ | ⟨t, rfl, rfl⟩)
    · rfl
    · rw [List.append_assoc, List.cons_append]
    · rw [List.append_assoc, List.cons_append]

/-- The same for texts. -/
theorem append_colon_eq_iff {a b a' b' : String} :
    a ++ ":" ++ b = a' ++ ":" ++ b' ↔ (a = a' ∧ b = b') ∨
      (∃ t, a' = a ++ ":" ++ t ∧ b = t ++ ":" ++ b') ∨
        ∃ t, a = a' ++ ":" ++ t ∧ b' = t ++ ":" ++ b := by
  have hlist : ∀ x y z : String, x = y ++ ":" ++ z ↔ x.toList = y.toList ++ ':' :: z.toList := by
    intro x y z
    rw [← String.toList_inj, String.toList_append, String.toList_append, List.append_assoc]
    rfl
  have hexists : ∀ x y u v : String,
      (∃ t, x = y ++ ":" ++ t ∧ u = t ++ ":" ++ v) ↔
        ∃ t : List Char, x.toList = y.toList ++ ':' :: t ∧ u.toList = t ++ ':' :: v.toList := by
    intro x y u v
    constructor
    · rintro ⟨t, hx, hu⟩
      exact ⟨t.toList, (hlist _ _ _).mp hx, (hlist _ _ _).mp hu⟩
    · rintro ⟨t, hx, hu⟩
      refine ⟨String.ofList t, (hlist _ _ _).mpr ?_, (hlist _ _ _).mpr ?_⟩
      · rw [String.toList_ofList]
        exact hx
      · rw [String.toList_ofList]
        exact hu
  rw [hlist, hexists, hexists, ← String.toList_inj, ← @String.toList_inj b b']
  rw [String.toList_append, String.toList_append, List.append_assoc]
  exact append_sep_eq_iff

/-- The fields, joined with colons. -/
def joined (xs : List String) : String :=
  String.intercalate ":" xs

theorem joined_singleton (x : String) : joined [x] = x :=
  String.intercalate_singleton

theorem joined_cons_cons (x y : String) (rest : List String) :
    joined (x :: y :: rest) = x ++ ":" ++ joined (y :: rest) :=
  String.intercalate_cons_cons

/-- The boundary behind a field has moved: the first fields of `xs` and `ys` are the same, the next
field of `ys` goes on with a colon and `t`, and `t` is what the other fields of `xs` begin with. -/
def Moved (xs ys : List String) : Prop :=
  ∃ before x t rest rest', xs = before ++ x :: rest ∧ ys = before ++ (x ++ ":" ++ t) :: rest' ∧
    rest ≠ [] ∧ rest' ≠ [] ∧ joined rest = t ++ ":" ++ joined rest'

theorem Moved.cons {xs ys : List String} (x : String) (h : Moved xs ys) :
    Moved (x :: xs) (x :: ys) := by
  obtain ⟨before, y, t, rest, rest', rfl, rfl, hrest⟩ := h
  exact ⟨x :: before, y, t, rest, rest', rfl, rfl, hrest⟩

/-- A field that goes on is another field. -/
theorem Moved.ne {xs ys : List String} (h : Moved xs ys) : xs ≠ ys := by
  obtain ⟨before, x, t, rest, rest', rfl, rfl, -⟩ := h
  intro heq
  have hx := (List.cons.inj (List.append_cancel_left heq)).1
  have hlen := congrArg String.length hx
  rw [String.length_append, String.length_append, show String.length ":" = 1 from rfl] at hlen
  omega

theorem joined_append (before : List String) {xs ys : List String} (hxs : xs ≠ []) (hys : ys ≠ [])
    (h : joined xs = joined ys) : joined (before ++ xs) = joined (before ++ ys) := by
  induction before with
  | nil => exact h
  | cons b before ih =>
    obtain ⟨x, xs', hx⟩ := List.exists_cons_of_ne_nil (List.append_ne_nil_of_right_ne_nil before hxs)
    obtain ⟨y, ys', hy⟩ := List.exists_cons_of_ne_nil (List.append_ne_nil_of_right_ne_nil before hys)
    rw [hx, hy] at ih
    rw [List.cons_append, List.cons_append, hx, hy, joined_cons_cons, joined_cons_cons, ih]

theorem Moved.joined_eq {xs ys : List String} (h : Moved xs ys) : joined xs = joined ys := by
  obtain ⟨before, x, t, rest, rest', rfl, rfl, hne, hne', hrest⟩ := h
  refine joined_append before (by simp) (by simp) ?_
  obtain ⟨r, rs, rfl⟩ := List.exists_cons_of_ne_nil hne
  obtain ⟨r', rs', rfl⟩ := List.exists_cons_of_ne_nil hne'
  rw [joined_cons_cons, joined_cons_cons, hrest]
  simp only [String.append_assoc]

/-- Lists of equally many fields have one join exactly when they are equal or a boundary has
moved. -/
theorem joined_eq_iff {xs ys : List String} (hlen : xs.length = ys.length) :
    joined xs = joined ys ↔ xs = ys ∨ Moved xs ys ∨ Moved ys xs := by
  constructor
  · intro h
    induction xs generalizing ys with
    | nil => exact .inl (List.length_eq_zero_iff.mp hlen.symm).symm
    | cons x xs ih =>
      obtain ⟨y, ys, rfl⟩ := List.exists_cons_of_length_eq_add_one hlen.symm
      have hlen := Nat.succ.inj hlen
      match xs, ys, hlen with
      | [], [], _ =>
        rw [joined_singleton, joined_singleton] at h
        exact .inl (by rw [h])
      | x' :: xs, y' :: ys, hlen =>
        rw [joined_cons_cons, joined_cons_cons, append_colon_eq_iff] at h
        rcases h with ⟨rfl, hrest⟩ | ⟨t, rfl, hrest⟩ | ⟨t, rfl, hrest⟩
        · rcases ih hlen hrest with heq | hmoved | hmoved
          · exact .inl (by rw [heq])
          · exact .inr (.inl (hmoved.cons x))
          · exact .inr (.inr (hmoved.cons x))
        · exact .inr (.inl ⟨[], x, t, _, _, rfl, rfl, by simp, by simp, hrest⟩)
        · exact .inr (.inr ⟨[], y, t, _, _, rfl, rfl, by simp, by simp, hrest⟩)
  · rintro (rfl | hmoved | hmoved)
    · rfl
    · exact hmoved.joined_eq
    · exact hmoved.joined_eq.symm

end WalletToolbox.Lib.Fields
