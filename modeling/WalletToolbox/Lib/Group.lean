import Mathlib.Data.List.Nodup
import Mathlib.Data.List.Perm.Basic
import WalletToolbox.Lib.Paging

/-! # Groups of rows

A hash map from keys to the rows of each key: rows are pushed under their keys, and a group is
taken out by its key.
Rows that are read in batches of keys come in as many pieces as there are batches; the rows of one
key all come from the batch that holds the key. -/

namespace WalletToolbox.Lib

variable {κ α β : Type} [BEq κ] [LawfulBEq κ] [Hashable κ] [LawfulHashable κ]

abbrev Groups (κ α : Type) [BEq κ] [Hashable κ] := Std.HashMap κ (List α)

namespace Groups

/-- Add a row at the end of the group of a key. -/
def push (g : Groups κ α) (k : κ) (a : α) : Groups κ α :=
  g.insert k (g.getD k [] ++ [a])

/-- The groups of a list of entries. -/
def collect (entries : List (κ × α)) : Groups κ α :=
  entries.foldl (fun g e => g.push e.1 e.2) ∅

/-- Take the groups of some keys out. -/
def drop (g : Groups κ α) (ks : List κ) : Groups κ α :=
  ks.foldl (·.erase ·) g

theorem getD_foldl_push (entries : List (κ × α)) (g : Groups κ α) (k : κ) :
    (entries.foldl (fun g e => g.push e.1 e.2) g).getD k [] =
      g.getD k [] ++ (entries.filter (·.1 == k)).map Prod.snd := by
  induction entries generalizing g with
  | nil => simp
  | cons e entries ih =>
    rw [List.foldl_cons, ih, push, Std.HashMap.getD_insert, List.filter_cons]
    by_cases hk : e.1 == k
    · rw [if_pos hk, if_pos hk, List.map_cons, List.append_assoc, List.singleton_append,
        eq_of_beq hk]
    · rw [if_neg hk, if_neg hk]

theorem getD_collect (entries : List (κ × α)) (k : κ) :
    (collect entries).getD k [] = (entries.filter (·.1 == k)).map Prod.snd := by
  rw [collect, getD_foldl_push]
  simp

theorem mem_foldl_push (entries : List (κ × α)) (g : Groups κ α) (k : κ) :
    k ∈ entries.foldl (fun g e => g.push e.1 e.2) g ↔ k ∈ g ∨ k ∈ entries.map Prod.fst := by
  induction entries generalizing g with
  | nil => simp
  | cons e entries ih =>
    rw [List.foldl_cons, ih, push, Std.HashMap.mem_insert, List.map_cons, List.mem_cons, beq_iff_eq]
    grind

theorem mem_collect (entries : List (κ × α)) (k : κ) :
    k ∈ collect entries ↔ k ∈ entries.map Prod.fst := by
  rw [collect, mem_foldl_push]
  simp

theorem getD_erase_of_ne {g : Groups κ α} {k k' : κ} (h : k' ≠ k) :
    (g.erase k').getD k [] = g.getD k [] := by
  rw [Std.HashMap.getD_erase, if_neg (by simpa using h)]

theorem mem_drop (g : Groups κ α) (ks : List κ) (k : κ) : k ∈ g.drop ks ↔ k ∈ g ∧ k ∉ ks := by
  induction ks generalizing g with
  | nil => simp [drop]
  | cons k' ks ih =>
    have hstep : drop g (k' :: ks) = drop (g.erase k') ks := rfl
    rw [hstep, ih, Std.HashMap.mem_erase, List.mem_cons, beq_eq_false_iff_ne]
    grind

/-- Nothing is left over if every key is taken out. -/
theorem isEmpty_drop {g : Groups κ α} {ks : List κ} (h : ∀ k ∈ g, k ∈ ks) :
    (g.drop ks).isEmpty = true := by
  rw [Std.HashMap.isEmpty_iff_forall_not_mem]
  intro k hk
  obtain ⟨hmem, hnot⟩ := (mem_drop g ks k).mp hk
  exact hnot (h k hmem)

end Groups

/-! ## An index of single values -/

/-- The last value of each key. -/
def indexBy (k : α → κ) (v : α → β) (rows : List α) : Std.HashMap κ β :=
  rows.foldl (fun m r => m.insert (k r) (v r)) ∅

section Index

variable {k : α → κ} {v : α → β} {rows : List α} {i : κ}

theorem getElem?_foldl_insert (m : Std.HashMap κ β) :
    (rows.foldl (fun m r => m.insert (k r) (v r)) m)[i]? =
      ((rows.filter (k · == i)).getLast?.map v).or m[i]? := by
  induction rows generalizing m with
  | nil => simp
  | cons r rows ih =>
    rw [List.foldl_cons, ih, Std.HashMap.getElem?_insert, List.filter_cons]
    by_cases hr : k r == i
    · rw [if_pos hr, if_pos hr, List.getLast?_cons]
      cases (rows.filter (k · == i)).getLast? <;> simp
    · rw [if_neg hr, if_neg hr]

theorem indexBy_eq_none (h : ∀ r ∈ rows, k r ≠ i) : (indexBy k v rows)[i]? = none := by
  have hnone : rows.filter (k · == i) = [] := by
    rw [List.filter_eq_nil_iff]
    intro r hr
    simpa using h r hr
  rw [indexBy, getElem?_foldl_insert, hnone]
  simp

/-- An index finds the value of a key whose rows agree on it. -/
theorem indexBy_eq_some {b : β} (hex : ∃ r ∈ rows, k r = i)
    (h : ∀ r ∈ rows, k r = i → v r = b) : (indexBy k v rows)[i]? = some b := by
  obtain ⟨r, hr, hkey⟩ := hex
  have hne : rows.filter (k · == i) ≠ [] :=
    List.ne_nil_of_mem (List.mem_filter.mpr ⟨hr, by simp [hkey]⟩)
  have hlast := List.mem_filter.mp (List.getLast_mem hne)
  rw [indexBy, getElem?_foldl_insert, List.getLast?_eq_some_getLast hne, Option.map_some,
    h _ hlast.1 (eq_of_beq hlast.2), Option.some_or]

end Index

/-! ## Batches -/

section Batches

variable {ι ρ : Type} {ids : List ι} {id : ι} {read : List ι → List ρ} {q : ρ → Bool} {own : List ρ}

theorem filter_flatMap_batches {batches : List (List ι)} (hids : batches.flatten.Nodup)
    (hin : ∀ c, id ∈ c → ((read c).filter q).Perm own) (hout : ∀ c, id ∉ c → (read c).filter q = []) :
    (id ∈ batches.flatten → ((batches.flatMap read).filter q).Perm own) ∧
    (id ∉ batches.flatten → (batches.flatMap read).filter q = []) := by
  induction batches with
  | nil => simp
  | cons c batches ih =>
    rw [List.flatten_cons, List.nodup_append] at hids
    obtain ⟨hone, hnone⟩ := ih hids.2.1
    rw [List.flatten_cons, List.flatMap_cons, List.filter_append, List.mem_append]
    refine ⟨fun h => ?_, fun h => ?_⟩
    · by_cases hc : id ∈ c
      · rw [hnone fun hrest => hids.2.2 id hc id hrest rfl, List.append_nil]
        exact hin c hc
      · rw [hout c hc, List.nil_append]
        exact hone (h.resolve_left hc)
    · obtain ⟨hc, hrest⟩ := not_or.mp h
      rw [hout c hc, hnone hrest, List.append_nil]

/-- The rows of one key, read in chunks of keys that hold each key once. -/
theorem filter_flatMap_chunks {n : Nat} (hn : 0 < n) (hids : ids.Nodup) (hid : id ∈ ids)
    (hin : ∀ c, id ∈ c → ((read c).filter q).Perm own) (hout : ∀ c, id ∉ c → (read c).filter q = []) :
    (((chunks n ids).flatMap read).filter q).Perm own := by
  have hflat := flatten_chunks hn ids
  have hbatches := filter_flatMap_batches (by rwa [hflat]) hin hout
  exact hbatches.1 (by rwa [hflat])

/-- The rows that are read in chunks of keys are the rows of the keys. -/
theorem mem_flatMap_chunks {n : Nat} (hn : 0 < n) {Of : ι → ρ → Prop}
    (hread : ∀ c a, a ∈ read c ↔ ∃ i ∈ c, Of i a) {a : ρ} :
    a ∈ (chunks n ids).flatMap read ↔ ∃ i ∈ ids, Of i a := by
  rw [List.mem_flatMap]
  constructor
  · rintro ⟨c, hc, ha⟩
    obtain ⟨i, hi, hof⟩ := (hread c a).mp ha
    refine ⟨i, ?_, hof⟩
    rw [← flatten_chunks hn ids]
    exact List.mem_flatten.mpr ⟨c, hc, hi⟩
  · rintro ⟨i, hi, hof⟩
    rw [← flatten_chunks hn ids] at hi
    obtain ⟨c, hc, hic⟩ := List.mem_flatten.mp hi
    exact ⟨c, hc, (hread c a).mpr ⟨i, hic, hof⟩⟩

end Batches

end WalletToolbox.Lib
