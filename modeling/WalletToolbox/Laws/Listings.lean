import Mathlib.Data.List.Dedup
import WalletToolbox.Laws.ListActions
import WalletToolbox.Methods.ListOutputs

/-! # Paging through filtered listings

Both listings page the rows in the database and filter the page by names afterwards.
The names are looked up as ids first; a listing ends early when they are not there. -/

namespace WalletToolbox.Storage

open WalletToolbox.Lib

/-! ## Names and ids -/

section Counting

variable {held wanted : List Nat}

/-- Without repetitions, as many of the wanted ids are held as there are if all of them are. -/
theorem length_le_count_iff (hheld : held.Nodup) (hwanted : wanted.Nodup) :
    wanted.length ≤ (held.filter wanted.contains).length ↔ ∀ i ∈ wanted, i ∈ held := by
  constructor
  · intro hle i hi
    have hsub : held.filter wanted.contains ⊆ wanted := fun j hj => by
      simpa using (List.mem_filter.mp hj).2
    have hperm := (List.subperm_of_subset (hheld.filter _) hsub).perm_of_length_le hle
    exact (List.mem_filter.mp (hperm.mem_iff.mpr hi)).1
  · intro hall
    refine (List.subperm_of_subset hwanted fun i hi => ?_).length_le
    exact List.mem_filter.mpr ⟨hall i hi, by simpa using hi⟩

/-- An id that is asked for twice is held once at most. -/
theorem count_lt_length (hheld : held.Nodup) (hwanted : ¬wanted.Nodup) :
    (held.filter wanted.contains).length < wanted.length := by
  refine Nat.lt_of_not_le fun hle => hwanted ?_
  have hsub : held.filter wanted.contains ⊆ wanted := fun j hj => by
    simpa using (List.mem_filter.mp hj).2
  have hperm := (List.subperm_of_subset (hheld.filter _) hsub).perm_of_length_le hle
  exact hperm.nodup_iff.mp (hheld.filter _)

end Counting

/-- What is asked for by names: all of them or any of them, and no names ask for nothing. -/
def askedFor (isQueryModeAll : Bool) (names : List String) (has : String → Bool) : Bool :=
  if isQueryModeAll then names.all has else names.isEmpty || names.any has

/-- The listing ends before it reads a row. -/
def endsEarly (isQueryModeAll : Bool) (names : List String) (ids : List Nat) : Bool :=
  (isQueryModeAll && ids.length < names.length) ||
    (!isQueryModeAll && ids.isEmpty && !names.isEmpty)

/-- A row with the given ids is shown. -/
def passes (isQueryModeAll : Bool) (ids held : List Nat) : Bool :=
  ids.isEmpty ||
    if isQueryModeAll then ids.length ≤ (held.filter ids.contains).length
    else 0 < (held.filter ids.contains).length

section Names

variable {names : List String} {ids held : List Nat} {idOf : String → Option Nat} {isQueryModeAll : Bool}

/-- The ids of the names that have one; no two names share an id. -/
structure LooksUp (names : List String) (idOf : String → Option Nat) (ids : List Nat) : Prop where
  mem : ∀ i, i ∈ ids ↔ ∃ a ∈ names, idOf a = some i
  inj : ∀ a b i, idOf a = some i → idOf b = some i → a = b
  nodup : names.Nodup → ids.Nodup

theorem filterMap_nodup (hinj : ∀ a b i, idOf a = some i → idOf b = some i → a = b)
    (hnames : names.Nodup) : (names.filterMap idOf).Nodup :=
  hnames.filterMap fun a b i ha hb => hinj a b i ha hb

theorem length_filterMap_found (hfound : ∀ a ∈ names, (idOf a).isSome = true) :
    (names.filterMap idOf).length = names.length := by
  induction names with
  | nil => rfl
  | cons a names ih =>
    obtain ⟨i, hi⟩ := Option.isSome_iff_exists.mp (hfound a List.mem_cons_self)
    rw [List.filterMap_cons, hi, List.length_cons, List.length_cons,
      ih fun b hb => hfound b (List.mem_cons_of_mem a hb)]

theorem found_of_length (hle : names.length ≤ (names.filterMap idOf).length) :
    ∀ a ∈ names, (idOf a).isSome = true := by
  induction names with
  | nil => simp
  | cons a names ih =>
    have htail := List.length_filterMap_le idOf names
    cases ha : idOf a with
    | none =>
      rw [List.filterMap_cons, ha, List.length_cons] at hle
      dsimp only at hle
      omega
    | some i =>
      rw [List.filterMap_cons, ha, List.length_cons] at hle
      intro b hb
      rcases List.mem_cons.mp hb with rfl | hb
      · rw [ha, Option.isSome_some]
      · exact ih (by simpa using hle) b hb

/-- Different names are all found if there are as many ids. -/
theorem LooksUp.found (h : LooksUp names idOf ids) (hnames : names.Nodup)
    (hle : names.length ≤ ids.length) : ∀ a ∈ names, (idOf a).isSome = true := by
  refine found_of_length (Nat.le_trans hle ?_)
  refine (List.subperm_of_subset (h.nodup hnames) fun i hi => ?_).length_le
  obtain ⟨a, ha, hid⟩ := (h.mem i).mp hi
  exact List.mem_filterMap.mpr ⟨a, ha, hid⟩

theorem LooksUp.length_le (h : LooksUp names idOf ids) (hnames : names.Nodup)
    (hfound : ∀ a ∈ names, (idOf a).isSome = true) : names.length ≤ ids.length := by
  rw [← length_filterMap_found hfound]
  refine (List.subperm_of_subset (filterMap_nodup h.inj hnames) fun i hi => ?_).length_le
  obtain ⟨a, ha, hid⟩ := List.mem_filterMap.mp hi
  exact (h.mem i).mpr ⟨a, ha, hid⟩

/-- A listing that ends early has nothing to show. -/
theorem LooksUp.none_of_endsEarly (h : LooksUp names idOf ids)
    (hnames : isQueryModeAll = true → names.Nodup)
    (hearly : endsEarly isQueryModeAll names ids = true) (held : List Nat) :
    askedFor isQueryModeAll names (fun a => (idOf a).any held.contains) = false := by
  cases isQueryModeAll with
  | true =>
    simp only [endsEarly, Bool.true_and, Bool.not_true, Bool.false_and, Bool.or_false,
      decide_eq_true_eq] at hearly
    refine Bool.eq_false_iff.mpr fun hall => ?_
    simp only [askedFor, if_true, List.all_eq_true] at hall
    have hle := h.length_le (hnames rfl) fun a ha => by
      obtain ⟨i, hi, _⟩ := Option.any_eq_true _ _ |>.mp (hall a ha)
      rw [hi, Option.isSome_some]
    omega
  | false =>
    simp only [endsEarly, Bool.false_and, Bool.not_false, Bool.true_and, Bool.false_or,
      Bool.and_eq_true, Bool.not_eq_true', List.isEmpty_iff] at hearly
    obtain ⟨hids, hne⟩ := hearly
    simp only [askedFor, Bool.false_eq_true, if_false, hne, Bool.false_or, List.any_eq_false]
    intro a ha hany
    obtain ⟨i, hi, _⟩ := Option.any_eq_true _ _ |>.mp hany
    have hmem := (h.mem i).mpr ⟨a, ha, hi⟩
    rw [hids] at hmem
    cases hmem

/-- A listing that goes on shows what is asked for, if no name is repeated in the mode for all. -/
theorem LooksUp.passes_eq (h : LooksUp names idOf ids) (hnames : isQueryModeAll = true → names.Nodup)
    (hheld : held.Nodup) (hgoes : endsEarly isQueryModeAll names ids = false) :
    passes isQueryModeAll ids held =
      askedFor isQueryModeAll names (fun a => (idOf a).any held.contains) := by
  cases isQueryModeAll with
  | true =>
    simp only [endsEarly, Bool.true_and, Bool.not_true, Bool.false_and, Bool.or_false,
      decide_eq_false_iff_not, Nat.not_lt] at hgoes
    have hfound := h.found (hnames rfl) hgoes
    have hcount := length_le_count_iff hheld (h.nodup (hnames rfl))
    have hall : (∀ i ∈ ids, i ∈ held) ↔
        askedFor true names (fun a => (idOf a).any held.contains) = true := by
      simp only [askedFor, if_true, List.all_eq_true]
      constructor
      · intro hids a ha
        obtain ⟨i, hi⟩ := Option.isSome_iff_exists.mp (hfound a ha)
        rw [hi, Option.any_some, List.contains_iff_mem]
        exact hids i ((h.mem i).mpr ⟨a, ha, hi⟩)
      · intro hnamed i hi
        obtain ⟨a, ha, hid⟩ := (h.mem i).mp hi
        have hany := hnamed a ha
        rwa [hid, Option.any_some, List.contains_iff_mem] at hany
    rw [Bool.eq_iff_iff, ← hall, ← hcount, passes]
    cases ids with
    | nil => simp
    | cons i ids => simp
  | false =>
    rw [Bool.eq_iff_iff, passes, askedFor]
    simp only [Bool.false_eq_true, if_false, Bool.or_eq_true, List.isEmpty_iff, decide_eq_true_eq,
      List.any_eq_true, List.length_pos_iff_exists_mem, List.mem_filter, List.contains_iff_mem]
    constructor
    · rintro (hids | ⟨i, hi, hwanted⟩)
      · left
        by_contra hne
        simp [endsEarly, hids, hne] at hgoes
      · obtain ⟨a, ha, hid⟩ := (h.mem i).mp hwanted
        exact .inr ⟨a, ha, by rw [hid, Option.any_some, List.contains_iff_mem]; exact hi⟩
    · rintro (rfl | ⟨a, ha, hany⟩)
      · left
        refine List.eq_nil_iff_forall_not_mem.mpr fun i hi => ?_
        obtain ⟨a, ha, _⟩ := (h.mem i).mp hi
        cases ha
      · obtain ⟨i, hid, hi⟩ := Option.any_eq_true _ _ |>.mp hany
        exact .inr ⟨i, by simpa using hi, (h.mem i).mpr ⟨a, ha, hid⟩⟩

/-- In the mode for all a repeated name shows nothing. -/
theorem LooksUp.not_passes (h : LooksUp names idOf ids) (hnames : ¬names.Nodup)
    (hheld : held.Nodup) (hgoes : endsEarly true names ids = false) :
    passes true ids held = false := by
  simp only [endsEarly, Bool.true_and, Bool.not_true, Bool.false_and, Bool.or_false,
    decide_eq_false_iff_not, Nat.not_lt] at hgoes
  have hlt : names.dedup.length < names.length := by
    refine Nat.lt_of_le_of_ne (List.dedup_sublist names).length_le fun heq => hnames ?_
    rw [← (List.dedup_sublist names).eq_of_length heq]
    exact List.nodup_dedup names
  have hids : ¬ids.Nodup := by
    intro hids
    have hsub : ids ⊆ names.dedup.filterMap idOf := fun i hi => by
      obtain ⟨a, ha, hid⟩ := (h.mem i).mp hi
      exact List.mem_filterMap.mpr ⟨a, List.mem_dedup.mpr ha, hid⟩
    have hle := (List.subperm_of_subset hids hsub).length_le
    have hle' := List.length_filterMap_le idOf names.dedup
    omega
  have hcount := count_lt_length hheld hids
  have hne : ids.isEmpty = false := by
    cases ids with
    | nil => exact absurd List.nodup_nil hids
    | cons i ids => rfl
  simp only [passes, hne, if_true, Bool.false_or, decide_eq_false_iff_not]
  omega

/-! ## Pages of rows with names -/

section Rows

variable {α : Type} {n m : Nat} {rows : List α} {heldBy : α → List Nat} {select : Nat → List α × Nat}

/-- The rows that have the names that are asked for. -/
def named (isQueryModeAll : Bool) (names : List String) (idOf : String → Option Nat)
    (heldBy : α → List Nat) (a : α) : Bool :=
  askedFor isQueryModeAll names fun name => (idOf name).any (heldBy a).contains

/-- A selection pages the rows and filters the page by the ids, unless it ends early. -/
def Pages (n m : Nat) (isQueryModeAll : Bool) (names : List String) (ids : List Nat)
    (heldBy : α → List Nat) (rows : List α) (select : Nat → List α × Nat) : Prop :=
  ∀ k, k * n < m → select k =
    if endsEarly isQueryModeAll names ids then ([], 0)
    else (filteredPage n (fun a => passes isQueryModeAll ids (heldBy a)) rows k,
      pageTotal n m (fun a => passes isQueryModeAll ids (heldBy a)) rows k)

/-- When paging is right: no name is repeated in the mode for all, unless nothing matches, and the
matches lie so that pages of unfiltered rows show them. -/
def PagesRight (n m : Nat) (isQueryModeAll : Bool) (names : List String) (p : α → Bool)
    (rows : List α) : Prop :=
  (isQueryModeAll = true → ¬names.Nodup → rows.filter p = []) ∧ PagedExactly n m p rows

variable (hn : 0 < n) (hm : n < m) (hselect : Pages n m isQueryModeAll names ids heldBy rows select)
  (h : LooksUp names idOf ids) (hheld : ∀ a ∈ rows, (heldBy a).Nodup)

include hn hm hselect h hheld

/-- Either a page is empty whatever it is of, or the filter is the one that is asked for. -/
theorem pages_cases :
    (select 0 = ([], 0) ∧
      ((isQueryModeAll = true → names.Nodup) →
        rows.filter (named isQueryModeAll names idOf heldBy) = [])) ∨
    ((isQueryModeAll = true → names.Nodup) ∧
      ∀ k, k * n < m → select k =
        (filteredPage n (named isQueryModeAll names idOf heldBy) rows k,
          pageTotal n m (named isQueryModeAll names idOf heldBy) rows k)) := by
  have hzero := hselect 0 (by omega)
  cases hends : endsEarly isQueryModeAll names ids with
  | true =>
    rw [hends, if_pos rfl] at hzero
    refine .inl ⟨hzero, fun hnames => ?_⟩
    rw [List.filter_eq_nil_iff]
    intro a _
    rw [named, h.none_of_endsEarly hnames hends]
    exact Bool.false_ne_true
  | false =>
    by_cases hnames : isQueryModeAll = true → names.Nodup
    · refine .inr ⟨hnames, fun k hk => ?_⟩
      have hpage : filteredPage n (fun a => passes isQueryModeAll ids (heldBy a)) rows k =
          filteredPage n (named isQueryModeAll names idOf heldBy) rows k := by
        refine List.filter_congr fun a ha => ?_
        exact h.passes_eq hnames (hheld a (List.mem_of_mem_drop (List.mem_of_mem_take ha))) hends
      rw [hselect k hk, hends, pageTotal, hpage]
      rfl
    · obtain ⟨hall, hrepeated⟩ := Classical.not_imp.mp hnames
      subst hall
      refine .inl ⟨?_, fun hnodup => absurd (hnodup rfl) hrepeated⟩
      have hpage : filteredPage n (fun a => passes true ids (heldBy a)) rows 0 = [] := by
        rw [filteredPage, List.filter_eq_nil_iff]
        intro a ha
        rw [h.not_passes hrepeated (hheld a (List.mem_of_mem_drop (List.mem_of_mem_take ha))) hends]
        exact Bool.false_ne_true
      rw [hzero, hends, pageTotal, hpage, List.length_nil, if_pos hn]
      simp

/-- Right totals need a right paging. -/
theorem pagesRight_of_totals
    (htotals : ∀ k, k * n ≤ (rows.filter (named isQueryModeAll names idOf heldBy)).length →
      (select k).2 = (rows.filter (named isQueryModeAll names idOf heldBy)).length) :
    PagesRight n m isQueryModeAll names (named isQueryModeAll names idOf heldBy) rows := by
  rcases pages_cases hn hm hselect h hheld with ⟨hzero, _⟩ | ⟨hnames, hpages⟩
  · have hlength := htotals 0 (by omega)
    rw [hzero] at hlength
    have hnone := List.eq_nil_of_length_eq_zero hlength.symm
    exact ⟨fun _ _ => hnone, pagedExactly_of_none hn hnone⟩
  · refine ⟨fun hall hnot => absurd (hnames hall) hnot, PagedExactly.of_totals hn hm fun k hk => ?_⟩
    have hbound : (rows.filter (named isQueryModeAll names idOf heldBy)).length < m := by
      have hfirst := htotals 0 (by omega)
      rw [hpages 0 (by omega), pageTotal] at hfirst
      split at hfirst
      · rw [← hfirst]
        exact Nat.mod_lt _ (by omega)
      · rw [← hfirst]
        exact Nat.mod_lt _ (by omega)
    have htotal := htotals k hk
    rwa [hpages k (by omega)] at htotal

/-- A right paging gives right totals and shows every match once. -/
theorem pages_right
    (hright : PagesRight n m isQueryModeAll names (named isQueryModeAll names idOf heldBy) rows) :
    (∀ k, k * n ≤ (rows.filter (named isQueryModeAll names idOf heldBy)).length →
      (select k).2 = (rows.filter (named isQueryModeAll names idOf heldBy)).length) ∧
    ((List.range ((rows.filter (named isQueryModeAll names idOf heldBy)).length / n + 1)).flatMap
      fun k => (select k).1) = rows.filter (named isQueryModeAll names idOf heldBy) := by
  obtain ⟨hrepeated, hexact⟩ := hright
  rcases pages_cases hn hm hselect h hheld with ⟨hzero, hnone⟩ | ⟨_, hpages⟩
  · have hnone : rows.filter (named isQueryModeAll names idOf heldBy) = [] := by
      by_cases hnames : isQueryModeAll = true → names.Nodup
      · exact hnone hnames
      · obtain ⟨hall, hnot⟩ := Classical.not_imp.mp hnames
        exact hrepeated hall hnot
    rw [hnone, List.length_nil, Nat.zero_div]
    refine ⟨fun k hk => ?_, by simp [hzero]⟩
    have hk0 : k = 0 := by
      rcases Nat.eq_zero_or_pos k with hk0 | hpos
      · exact hk0
      · have := Nat.mul_pos hpos hn
        omega
    rw [hk0, hzero]
  · obtain ⟨htotals, hall⟩ := hexact.totals hn hm
    have hbound := hexact.bound hn hm
    refine ⟨fun k hk => ?_, ?_⟩
    · rw [hpages k (by omega)]
      exact htotals k hk
    · refine Eq.trans (List.flatMap_congr fun k hk => ?_) hall
      have hle : k ≤ (rows.filter (named isQueryModeAll names idOf heldBy)).length / n :=
        Nat.le_of_lt_succ (List.mem_range.mp hk)
      have hkn := (Nat.le_div_iff_mul_le hn).mp hle
      rw [hpages k (by omega)]

end Rows

end Names

/-! ## Outputs -/

variable {s : Store} {userId : Nat}

/-- Whether an output has a tag: a live link to the user's live tag of the name. -/
def hasTag (s : Store) (userId : Nat) (o : Output) (tag : String) : Bool :=
  s.outputTags.exists? fun t => t.userId == userId && t.tag == tag && !t.isDeleted &&
    s.outputTagMaps.exists? fun m =>
      m.outputTagId == t.outputTagId && m.outputId == o.outputId && !m.isDeleted

/-- The user's spendable outputs, in the basket if one is named, whose transactions are visible. -/
def visibleOutputs (s : Store) (userId : Nat) (basket : String) : List Output :=
  s.outputs.find fun o => o.userId == userId &&
    (basket.isEmpty || s.outputBaskets.exists? fun b =>
      b.userId == userId && b.name == basket && o.basketId == some b.basketId) &&
    o.spendable && (s.transactions.first fun t => t.transactionId == o.transactionId).any
      fun t => txStatusAllowed.contains t.status

/-- Whether an output has the tags of a request. -/
def matchesTags (s : Store) (userId : Nat) (args : ListOutputsArgs) (o : Output) : Bool :=
  askedFor (args.tagQueryMode == some .all) args.tags (hasTag s userId o)

def matchingOutputs (s : Store) (userId : Nat) (args : ListOutputsArgs) : List Output :=
  (visibleOutputs s userId args.basket).filter (matchesTags s userId args)

/-- The request for the page of `n` outputs after `k` pages. -/
def ListOutputsArgs.page (args : ListOutputsArgs) (n : UInt32) (k : Nat) : ListOutputsArgs :=
  { args with limit := some n, offset := some (k * n.toNat : Nat) }

/-- The pages up to the reported total show each matching output once and nothing else, and report
the number of the matching outputs. -/
def OutputPagesExact (s : Store) (userId : Nat) (args : ListOutputsArgs) (n : UInt32) : Prop :=
  let total := (matchingOutputs s userId args).length
  ∃ (results : Nat → ListOutputsResult) (shown : List SdkOutput),
    (∀ k, listOutputs s userId (args.page n k) = .ok (results k)) ∧
    (∀ k, k * n.toNat ≤ total → (results k).totalOutputs = total) ∧
    (matchingOutputs s userId args).mapM (toSdkOutput s args) = .ok shown ∧
    ((List.range (total / n.toNat + 1)).flatMap fun k => (results k).outputs).Perm shown

section Outputs

variable {args : ListOutputsArgs}

/-- The id of the user's live tag of a name. -/
def tagIdOf (s : Store) (userId : Nat) (tag : String) : Option Nat :=
  (s.outputTags.first fun t => t.userId == userId && t.tag == tag && !t.isDeleted).map
    (·.outputTagId)

/-- The ids of the tags that an output is linked to. -/
def tagIdsOf (s : Store) (o : Output) : List Nat :=
  (findOutputTagMaps s o.outputId).map (·.outputTagId)

theorem tagIdOf_some {tag : String} {i : Nat} (h : tagIdOf s userId tag = some i) :
    ∃ t ∈ s.outputTags, t.userId = userId ∧ t.tag = tag ∧ t.isDeleted = false ∧ t.outputTagId = i := by
  obtain ⟨t, ht, hid⟩ := Option.map_eq_some_iff.mp h
  obtain ⟨hmem, hcond⟩ := Table.first_some ht
  simp only [Bool.and_eq_true, beq_iff_eq, Bool.not_eq_true'] at hcond
  exact ⟨t, hmem, hcond.1.1, hcond.1.2, hcond.2, hid⟩

theorem findTagIds_eq (tags : List String) :
    findTagIds s userId tags = tags.filterMap (tagIdOf s userId) := by
  rw [List.filterMap_eq_flatMap_toList, findTagIds]
  refine List.flatMap_congr fun tag _ => ?_
  rw [Table.find_eq_first_toList, tagIdOf, Option.toList_map]
  intro a ha b hb hpa hpb
  simp only [Bool.and_eq_true, beq_iff_eq] at hpa hpb
  refine s.unique.outputTags.eq ha hb ?_
  rw [hpa.1.1, hpa.1.2, hpb.1.1, hpb.1.2]

theorem findTagIds_looksUp (s : Store) (userId : Nat) (tags : List String) :
    LooksUp tags (tagIdOf s userId) (findTagIds s userId tags) := by
  have hinj : ∀ a b i, tagIdOf s userId a = some i → tagIdOf s userId b = some i → a = b := by
    intro a b i ha hb
    obtain ⟨t, ht, _, rfl, _, hid⟩ := tagIdOf_some ha
    obtain ⟨t', ht', _, rfl, _, hid'⟩ := tagIdOf_some hb
    rw [Table.eq_of_key_eq ht ht' (hid.trans hid'.symm)]
  rw [findTagIds_eq]
  exact ⟨fun i => List.mem_filterMap, hinj, filterMap_nodup hinj⟩

theorem tagIdsOf_nodup (o : Output) : (tagIdsOf s o).Nodup := by
  refine List.pairwise_map.mpr ((s.unique.outputTagMaps.filter _).imp_of_mem ?_)
  intro a b ha hb hne heq
  have hlink : ∀ m ∈ findOutputTagMaps s o.outputId, m.outputId = o.outputId := fun m hm => by
    have hcond := (List.mem_filter.mp hm).2
    simp only [Bool.and_eq_true, beq_iff_eq] at hcond
    exact hcond.1
  exact hne (Prod.ext heq ((hlink a ha).trans (hlink b hb).symm))

theorem tagIdOf_any (o : Output) (tag : String) :
    (tagIdOf s userId tag).any (tagIdsOf s o).contains = hasTag s userId o tag := by
  rw [Bool.eq_iff_iff, hasTag, Table.exists?_eq_true]
  constructor
  · intro h
    obtain ⟨i, hi, hheld⟩ := (Option.any_eq_true _ _).mp h
    obtain ⟨t, ht, huser, htag, hlive, rfl⟩ := tagIdOf_some hi
    rw [List.contains_iff_mem] at hheld
    obtain ⟨m, hm, hid⟩ := List.mem_map.mp hheld
    obtain ⟨hmem, hcond⟩ := Table.mem_find.mp hm
    refine ⟨t, ht, ?_⟩
    simp only [Bool.and_eq_true, beq_iff_eq, Bool.not_eq_true', Table.exists?_eq_true] at hcond ⊢
    exact ⟨⟨⟨huser, htag⟩, hlive⟩, m, hmem, ⟨hid, hcond.1⟩, hcond.2⟩
  · rintro ⟨t, ht, hcond⟩
    simp only [Bool.and_eq_true, beq_iff_eq, Bool.not_eq_true', Table.exists?_eq_true] at hcond
    obtain ⟨⟨⟨huser, htag⟩, hlive⟩, m, hm, ⟨hid, hout⟩, hmlive⟩ := hcond
    have hfirst : tagIdOf s userId tag = some t.outputTagId := by
      rw [tagIdOf, Table.first_eq_head, Table.find_singleton ht (by simp [huser, htag, hlive])]
      · rfl
      · intro b hb hpb
        simp only [Bool.and_eq_true, beq_iff_eq] at hpb
        refine s.unique.outputTags.eq hb ht ?_
        rw [hpb.1.1, hpb.1.2, huser, htag]
    rw [hfirst, Option.any_some, List.contains_iff_mem, tagIdsOf, List.mem_map]
    exact ⟨m, Table.mem_find.mpr ⟨hm, by simp [hout, hmlive]⟩, hid⟩

theorem named_tags (o : Output) :
    named (args.tagQueryMode == some .all) args.tags (tagIdOf s userId) (tagIdsOf s) o =
      matchesTags s userId args o := by
  rw [named, matchesTags]
  refine congrArg _ (funext fun tag => ?_)
  exact tagIdOf_any o tag

theorem filterByTags_eq (isQueryModeAll : Bool) (tagIds : List Nat) (outputs : List Output) :
    filterByTags s isQueryModeAll tagIds outputs =
      outputs.filter fun o => passes isQueryModeAll tagIds (tagIdsOf s o) := by
  unfold filterByTags
  by_cases hids : tagIds.isEmpty = true
  · simp [hids, passes]
  · rw [if_neg hids]
    refine List.filter_congr fun o _ => ?_
    have hcount : ((findOutputTagMaps s o.outputId).filter fun m => tagIds.contains m.outputTagId).length =
        ((tagIdsOf s o).filter tagIds.contains).length := by
      rw [tagIdsOf, List.filter_map, List.length_map]
      rfl
    simp only [hasTags, passes, hcount, Bool.eq_false_iff.mpr hids, Bool.false_or]

/-- Without the basket there is nothing to see, and with it the base query sees the visible
outputs. -/
theorem findBasketId_cases (s : Store) (userId : Nat) (basket : String) :
    (findBasketId s userId basket = none ∧ visibleOutputs s userId basket = []) ∨
    ∃ basketId, findBasketId s userId basket = some basketId ∧
      s.outputs.find (isVisible s userId basketId) = visibleOutputs s userId basket := by
  by_cases hname : basket.isEmpty = true
  · refine .inr ⟨none, by rw [findBasketId, if_pos hname], List.filter_congr fun o _ => ?_⟩
    simp [isVisible, hname]
  · have hempty : basket.isEmpty = false := Bool.eq_false_iff.mpr hname
    have honly := Table.find_eq_first_toList (t := s.outputBaskets)
      (p := fun b => b.userId == userId && b.name == basket) (by
        intro a ha b hb hpa hpb
        simp only [Bool.and_eq_true, beq_iff_eq] at hpa hpb
        refine s.unique.outputBaskets.eq ha hb ?_
        rw [hpa.1, hpa.2, hpb.1, hpb.2])
    cases hfirst : s.outputBaskets.first fun b => b.userId == userId && b.name == basket with
    | none =>
      refine .inl ⟨by rw [findBasketId, if_neg hname, honly, hfirst]; rfl, ?_⟩
      refine Table.find_eq_nil.mpr fun o _ => ?_
      have hno : (s.outputBaskets.exists? fun b =>
          b.userId == userId && b.name == basket && o.basketId == some b.basketId) = false := by
        refine Table.exists?_eq_false.mpr fun b hb => ?_
        rw [Table.first_none.mp hfirst b hb, Bool.false_and]
      simp [hempty, hno]
    | some b =>
      obtain ⟨hb, hcond⟩ := Table.first_some hfirst
      refine .inr ⟨some b.basketId, by rw [findBasketId, if_neg hname, honly, hfirst]; rfl,
        List.filter_congr fun o _ => ?_⟩
      have hin : (s.outputBaskets.exists? fun b =>
          b.userId == userId && b.name == basket && o.basketId == some b.basketId) =
          (o.basketId == some b.basketId) := by
        rw [Bool.eq_iff_iff, Table.exists?_eq_true]
        constructor
        · rintro ⟨b', hb', hcond'⟩
          rw [Bool.and_eq_true] at hcond'
          have hmem : b' ∈ s.outputBaskets.find fun b => b.userId == userId && b.name == basket :=
            Table.mem_find.mpr ⟨hb', hcond'.1⟩
          rw [honly, hfirst, Option.toList_some, List.mem_singleton] at hmem
          exact hmem ▸ hcond'.2
        · intro hid
          exact ⟨b, hb, by rw [hcond, hid]; rfl⟩
      simp [isVisible, hempty, hin]

theorem selectOutputs_pages {basketId : Option Nat} (n : UInt32)
    (hbasket : findBasketId s userId args.basket = some basketId)
    (hrows : s.outputs.find (isVisible s userId basketId) = visibleOutputs s userId args.basket) :
    Pages n.toNat 4294967296 (args.tagQueryMode == some .all) args.tags
      (findTagIds s userId args.tags) (tagIdsOf s) (visibleOutputs s userId args.basket)
      fun k => selectOutputs s userId (args.page n k) := by
  intro k _
  have hoffset : skippedRows (some ((k * n.toNat : Nat) : Int)) = k * n.toNat := by
    rw [skippedRows, Option.getD_some, if_neg (by omega), Int.toNat_natCast]
  simp only [selectOutputs, ListOutputsArgs.page, hbasket, Option.getD_some, hoffset, hrows,
    filterByTags_eq]
  generalize (args.tagQueryMode == some .all) = isQueryModeAll
  cases isQueryModeAll with
  | true =>
    simp only [Bool.true_and, Bool.not_true, Bool.false_and, Bool.false_eq_true, if_false, endsEarly,
      Bool.or_false, pageTotal, filteredPage, page]
    rfl
  | false =>
    simp only [Bool.false_and, Bool.not_false, Bool.true_and, Bool.false_eq_true, if_false,
      endsEarly, Bool.false_or, pageTotal, filteredPage, page]
    rfl

/-- The description of an output never fails. -/
theorem toSdkOutput_ok (s : Store) (args : ListOutputsArgs) (o : Output) :
    ∃ shown, toSdkOutput s args o = .ok shown := by
  unfold toSdkOutput getLabelsForTransactionId
  rw [labelsOf_eq]
  cases args.includeLabels with
  | true => exact ⟨_, rfl⟩
  | false => exact ⟨_, rfl⟩

theorem mapM_toSdkOutput (s : Store) (args : ListOutputsArgs) :
    ∃ show1 : Output → SdkOutput, ∀ outputs : List Output,
      outputs.mapM (toSdkOutput s args) = .ok (outputs.map show1) := by
  choose show1 hshow1 using toSdkOutput_ok s args
  refine ⟨show1, fun outputs => ?_⟩
  induction outputs with
  | nil => rfl
  | cons o outputs ih =>
    rw [List.mapM_cons, hshow1, ih]
    rfl

theorem outputPagesExact_iff {n : UInt32} (hn : 0 < n) :
    OutputPagesExact s userId args n ↔
      PagesRight n.toNat 4294967296 (args.tagQueryMode == some .all) args.tags
        (matchesTags s userId args) (visibleOutputs s userId args.basket) := by
  have hn' : 0 < n.toNat := hn
  have hm : n.toNat < 4294967296 := n.toNat_lt
  obtain ⟨show1, hshow⟩ := mapM_toSdkOutput s args
  have hlist : ∀ k, listOutputs s userId (args.page n k) =
      .ok { totalOutputs := (selectOutputs s userId (args.page n k)).2, beef := none
            outputs := (selectOutputs s userId (args.page n k)).1.map show1 } := by
    intro k
    have hpage : toSdkOutput s (args.page n k) = toSdkOutput s args := rfl
    rw [listOutputs]
    simp only [hpage, hshow]
    rfl
  -- The right selections give the right results, whatever the outputs are described by.
  have hresults : (∀ k, k * n.toNat ≤ (matchingOutputs s userId args).length →
        (selectOutputs s userId (args.page n k)).2 = (matchingOutputs s userId args).length) →
      ((List.range ((matchingOutputs s userId args).length / n.toNat + 1)).flatMap
        fun k => (selectOutputs s userId (args.page n k)).1) = matchingOutputs s userId args →
      OutputPagesExact s userId args n := by
    intro htotals hshown
    refine ⟨_, _, hlist, htotals, hshow _, ?_⟩
    rw [← List.map_flatMap, hshown]
  have htotalsOf : OutputPagesExact s userId args n →
      ∀ k, k * n.toNat ≤ (matchingOutputs s userId args).length →
        (selectOutputs s userId (args.page n k)).2 = (matchingOutputs s userId args).length := by
    rintro ⟨results, _, hok, htotals, _⟩ k hk
    have htotal := htotals k hk
    have hresult := hok k
    rw [hlist, Except.ok.injEq] at hresult
    rw [← hresult] at htotal
    exact htotal
  rcases findBasketId_cases s userId args.basket with
    ⟨hnone, hrows⟩ | ⟨basketId, hsome, hrows⟩
  · have hmatching : matchingOutputs s userId args = [] := by rw [matchingOutputs, hrows, List.filter_nil]
    have hselect : ∀ k, selectOutputs s userId (args.page n k) = ([], 0) := by
      intro k
      have hbasket : findBasketId s userId (args.page n k).basket = none := hnone
      rw [selectOutputs, hbasket]
    rw [hrows]
    refine ⟨fun _ => ⟨fun _ _ => rfl, pagedExactly_of_none hn' rfl⟩, fun _ => hresults ?_ ?_⟩
    · intro k _
      rw [hselect, hmatching, List.length_nil]
    · rw [hmatching]
      simp [hselect]
  · have hnamed : named (args.tagQueryMode == some .all) args.tags (tagIdOf s userId) (tagIdsOf s) =
        matchesTags s userId args := funext fun o => named_tags o
    have hheld : ∀ o ∈ visibleOutputs s userId args.basket, (tagIdsOf s o).Nodup :=
      fun o _ => tagIdsOf_nodup o
    have hpages := selectOutputs_pages n hsome hrows
    have hlooks := findTagIds_looksUp s userId args.tags
    rw [← hnamed]
    constructor
    · intro hexact
      refine pagesRight_of_totals hn' hm hpages hlooks hheld ?_
      rw [hnamed]
      exact htotalsOf hexact
    · intro hright
      have hboth := pages_right hn' hm hpages hlooks hheld hright
      rw [hnamed] at hboth
      exact hresults hboth.1 hboth.2

end Outputs

/-! ## Actions -/

/-- Whether a transaction has a label: a live link to the user's live label of the name. -/
def hasLabel (s : Store) (userId : Nat) (t : Transaction) (label : String) : Bool :=
  s.txLabels.exists? fun l => l.userId == userId && l.label == label && !l.isDeleted &&
    s.txLabelMaps.exists? fun m =>
      m.txLabelId == l.txLabelId && m.transactionId == t.transactionId && !m.isDeleted

/-- Whether a transaction has the labels of a request. -/
def matchesLabels (s : Store) (userId : Nat) (args : ListActionsArgs) (t : Transaction) : Bool :=
  askedFor (args.labelQueryMode == some .all) args.labels (hasLabel s userId t)

def matchingActions (s : Store) (userId : Nat) (args : ListActionsArgs) : List Transaction :=
  (s.transactions.find (isListed userId)).filter (matchesLabels s userId args)

/-- The request for the page of `n` actions after `k` pages. -/
def ListActionsArgs.page (args : ListActionsArgs) (n : UInt32) (k : Nat) : ListActionsArgs :=
  { args with limit := some n, offset := some (UInt32.ofNat (k * n.toNat)) }

/-- The pages up to the reported total describe each matching action once and nothing else, and
report the number of the matching actions. -/
def ActionPagesExact (s : Store) (userId : Nat) (args : ListActionsArgs) (n : UInt32) : Prop :=
  let total := (matchingActions s userId args).length
  ∃ (results : Nat → ListActionsResult) (shown : List Transaction),
    (∀ k, listActions s userId (args.page n k) = .ok (results k)) ∧
    (∀ k, k * n.toNat ≤ total → (results k).totalActions = total) ∧
    shown.Perm (matchingActions s userId args) ∧
    List.Forall₂ (fun t a => a.Same (userAction s userId args t)) shown
      ((List.range (total / n.toNat + 1)).flatMap fun k => (results k).actions)

section Actions

variable {args : ListActionsArgs}

/-- The id of the user's live label of a name. -/
def labelIdOf (s : Store) (userId : Nat) (label : String) : Option Nat :=
  (s.txLabels.first fun l => l.userId == userId && l.label == label && !l.isDeleted).map
    (·.txLabelId)

/-- The ids of the labels that a transaction is linked to. -/
def labelIdsOf (s : Store) (t : Transaction) : List Nat :=
  (linksOf s t.transactionId).map (·.txLabelId)

theorem labelIdOf_eq_some {label : String} {i : Nat} :
    labelIdOf s userId label = some i ↔
      ∃ l ∈ s.txLabels, l.userId = userId ∧ l.label = label ∧ l.isDeleted = false ∧ l.txLabelId = i := by
  rw [labelIdOf, Option.map_eq_some_iff]
  constructor
  · rintro ⟨l, hl, hid⟩
    obtain ⟨hmem, hcond⟩ := Table.first_some hl
    simp only [Bool.and_eq_true, beq_iff_eq, Bool.not_eq_true'] at hcond
    exact ⟨l, hmem, hcond.1.1, hcond.1.2, hcond.2, hid⟩
  · rintro ⟨l, hl, huser, hlabel, hlive, hid⟩
    refine ⟨l, ?_, hid⟩
    rw [Table.first_eq_head, Table.find_singleton hl (by simp [huser, hlabel, hlive])]
    · rfl
    · intro b hb hpb
      simp only [Bool.and_eq_true, beq_iff_eq] at hpb
      refine s.unique.txLabels.eq hb hl ?_
      rw [hpb.1.1, hpb.1.2, huser, hlabel]

theorem findLabelIds_looksUp (s : Store) (userId : Nat) (labels : List String) :
    LooksUp labels (labelIdOf s userId) (findLabelIds s userId labels) := by
  refine ⟨fun i => ?_, ?_, fun _ => ?_⟩
  · unfold findLabelIds
    split
    · rename_i hempty
      rw [List.isEmpty_iff.mp hempty]
      simp
    · rw [List.mem_map]
      constructor
      · rintro ⟨l, hl, hid⟩
        obtain ⟨hmem, hcond⟩ := Table.mem_find.mp hl
        simp only [Bool.and_eq_true, beq_iff_eq, Bool.not_eq_true', List.contains_iff_mem] at hcond
        exact ⟨l.label, hcond.2,
          labelIdOf_eq_some.mpr ⟨l, hmem, hcond.1.1, rfl, hcond.1.2, hid⟩⟩
      · rintro ⟨label, hlabel, hfound⟩
        obtain ⟨l, hl, huser, rfl, hlive, hid⟩ := labelIdOf_eq_some.mp hfound
        exact ⟨l, Table.mem_find.mpr ⟨hl, by simp [huser, hlive, hlabel]⟩, hid⟩
  · intro a b i ha hb
    obtain ⟨l, hl, _, rfl, _, hid⟩ := labelIdOf_eq_some.mp ha
    obtain ⟨l', hl', _, rfl, _, hid'⟩ := labelIdOf_eq_some.mp hb
    rw [Table.eq_of_key_eq hl hl' (hid.trans hid'.symm)]
  · unfold findLabelIds
    split
    · exact List.nodup_nil
    · exact s.txLabels.nodup_key_find _

theorem labelIdsOf_nodup (t : Transaction) : (labelIdsOf s t).Nodup := by
  refine List.pairwise_map.mpr ((s.unique.txLabelMaps.filter _).imp_of_mem ?_)
  intro a b ha hb hne heq
  have hlink : ∀ m ∈ linksOf s t.transactionId, m.transactionId = t.transactionId := fun m hm => by
    have hcond := (List.mem_filter.mp hm).2
    simp only [Bool.and_eq_true, beq_iff_eq] at hcond
    exact hcond.1
  exact hne (Prod.ext heq ((hlink a ha).trans (hlink b hb).symm))

theorem labelIdOf_any (t : Transaction) (label : String) :
    (labelIdOf s userId label).any (labelIdsOf s t).contains = hasLabel s userId t label := by
  rw [Bool.eq_iff_iff, hasLabel, Table.exists?_eq_true]
  constructor
  · intro h
    obtain ⟨i, hi, hheld⟩ := (Option.any_eq_true _ _).mp h
    obtain ⟨l, hl, huser, hlabel, hlive, rfl⟩ := labelIdOf_eq_some.mp hi
    rw [List.contains_iff_mem] at hheld
    obtain ⟨m, hm, hid⟩ := List.mem_map.mp hheld
    obtain ⟨hmem, hcond⟩ := Table.mem_find.mp hm
    refine ⟨l, hl, ?_⟩
    simp only [Bool.and_eq_true, beq_iff_eq, Bool.not_eq_true', Table.exists?_eq_true] at hcond ⊢
    exact ⟨⟨⟨huser, hlabel⟩, hlive⟩, m, hmem, ⟨hid, hcond.1⟩, hcond.2⟩
  · rintro ⟨l, hl, hcond⟩
    simp only [Bool.and_eq_true, beq_iff_eq, Bool.not_eq_true', Table.exists?_eq_true] at hcond
    obtain ⟨⟨⟨huser, hlabel⟩, hlive⟩, m, hm, ⟨hid, htx⟩, hmlive⟩ := hcond
    rw [labelIdOf_eq_some.mpr ⟨l, hl, huser, hlabel, hlive, rfl⟩, Option.any_some,
      List.contains_iff_mem, labelIdsOf, List.mem_map]
    exact ⟨m, Table.mem_find.mpr ⟨hm, by simp [htx, hmlive]⟩, hid⟩

theorem named_labels (t : Transaction) :
    named (args.labelQueryMode == some .all) args.labels (labelIdOf s userId) (labelIdsOf s) t =
      matchesLabels s userId args t := by
  rw [named, matchesLabels]
  refine congrArg _ (funext fun label => ?_)
  exact labelIdOf_any t label

/-- The links of a transaction of the page, as the batched read groups them. -/
theorem linksOf_grouped {txs : List Transaction} (hids : (txs.map (·.transactionId)).Nodup)
    {t : Transaction} (ht : t ∈ txs) :
    ((Groups.collect (((chunks enrichmentInChunkSize (txs.map (·.transactionId))).flatMap
      (findTxLabelMaps s)).map fun m => (m.transactionId, m))).getD t.transactionId []).Perm
        (linksOf s t.transactionId) := by
  have hpair : ∀ (id : Nat) (xs : List TxLabelMap),
      ((xs.map fun m => (m.transactionId, m)).filter (·.1 == id)).map Prod.snd =
        xs.filter (·.transactionId == id) := by
    intro id xs
    simp [List.filter_map, Function.comp_def]
  rw [Groups.getD_collect, hpair]
  exact linksOf_batched hids (List.mem_map.mpr ⟨t, ht, rfl⟩)

theorem filterByLabels_eq (isQueryModeAll : Bool) (labelIds : List Nat) {txs : List Transaction}
    (hids : (txs.map (·.transactionId)).Nodup) :
    filterByLabels s isQueryModeAll labelIds txs =
      txs.filter fun t => passes isQueryModeAll labelIds (labelIdsOf s t) := by
  unfold filterByLabels
  by_cases hempty : labelIds.isEmpty = true
  · simp [hempty, passes]
  · rw [if_neg hempty]
    refine List.filter_congr fun t ht => ?_
    have hperm := linksOf_grouped (s := s) hids ht
    have hcount := (hperm.filter fun m => labelIds.contains m.txLabelId).length_eq
    have hlinks : ((linksOf s t.transactionId).filter fun m => labelIds.contains m.txLabelId).length =
        ((labelIdsOf s t).filter labelIds.contains).length := by
      rw [labelIdsOf, List.filter_map, List.length_map]
      rfl
    simp only [hasLabels, passes, hcount, hlinks, Bool.eq_false_iff.mpr hempty, Bool.false_or]

theorem selectTransactions_pages (s : Store) (userId : Nat) (args : ListActionsArgs) (n : UInt32) :
    Pages n.toNat 4294967296 (args.labelQueryMode == some .all) args.labels
      (findLabelIds s userId args.labels) (labelIdsOf s) (s.transactions.find (isListed userId))
      fun k => selectTransactions s userId (args.page n k) := by
  intro k hk
  have hoffset : (UInt32.ofNat (k * n.toNat)).toNat = k * n.toNat := by
    rw [UInt32.toNat_ofNat']
    exact Nat.mod_eq_of_lt hk
  have hids : (((((s.transactions.find (isListed userId)).drop (k * n.toNat)).take n.toNat)).map
      (·.transactionId)).Nodup :=
    (s.transactions.nodup_key_find (isListed userId)).sublist
      (((List.take_sublist _ _).trans (List.drop_sublist _ _)).map _)
  have hfilter := filterByLabels_eq (s := s) (args.labelQueryMode == some .all)
    (findLabelIds s userId args.labels) hids
  simp only [selectTransactions, ListActionsArgs.page, Option.getD_some, hoffset, hfilter]
  generalize (args.labelQueryMode == some .all) = isQueryModeAll
  cases isQueryModeAll with
  | true =>
    simp only [Bool.true_and, Bool.not_true, Bool.false_and, Bool.false_eq_true, if_false, endsEarly,
      Bool.or_false, pageTotal, filteredPage, page]
    rfl
  | false =>
    simp only [Bool.false_and, Bool.not_false, Bool.true_and, Bool.false_eq_true, if_false,
      endsEarly, Bool.false_or, pageTotal, filteredPage, page]
    rfl

theorem actionPagesExact_iff {n : UInt32} (hn : 0 < n) :
    ActionPagesExact s userId args n ↔
      PagesRight n.toNat 4294967296 (args.labelQueryMode == some .all) args.labels
        (matchesLabels s userId args) (s.transactions.find (isListed userId)) := by
  have hn' : 0 < n.toNat := hn
  have hm : n.toNat < 4294967296 := n.toNat_lt
  have hnamed : named (args.labelQueryMode == some .all) args.labels (labelIdOf s userId)
      (labelIdsOf s) = matchesLabels s userId args := funext fun t => named_labels t
  have hheld : ∀ t ∈ s.transactions.find (isListed userId), (labelIdsOf s t).Nodup :=
    fun t _ => labelIdsOf_nodup t
  have hpages := selectTransactions_pages s userId args n
  have hlooks := findLabelIds_looksUp s userId args.labels
  rw [← hnamed]
  choose actions hlist hsame using fun k => listActions_ok s userId (args.page n k)
  constructor
  · rintro ⟨results, _, hok, htotals, _⟩
    refine pagesRight_of_totals hn' hm hpages hlooks hheld ?_
    rw [hnamed]
    intro k hk
    have htotal := htotals k hk
    have hresult := hok k
    rw [hlist, Except.ok.injEq] at hresult
    rw [← hresult] at htotal
    exact htotal
  · intro hright
    have hboth := pages_right hn' hm hpages hlooks hheld hright
    rw [hnamed] at hboth
    refine ⟨_, matchingActions s userId args, hlist, hboth.1, List.Perm.refl _, ?_⟩
    have hall : ∀ ks : List Nat, List.Forall₂ (fun t a => a.Same (userAction s userId args t))
        (ks.flatMap fun k => (selectTransactions s userId (args.page n k)).1)
        (ks.flatMap fun k => actions k) := by
      intro ks
      induction ks with
      | nil => exact .nil
      | cons k ks ih =>
        rw [List.flatMap_cons, List.flatMap_cons]
        exact List.rel_append (hsame k) ih
    have hshown := hall (List.range ((matchingActions s userId args).length / n.toNat + 1))
    rwa [show ((List.range ((matchingActions s userId args).length / n.toNat + 1)).flatMap fun k =>
      (selectTransactions s userId (args.page n k)).1) = matchingActions s userId args from hboth.2]
      at hshown

end Actions

/-! ## When paging is exact -/

/-- The pages of both listings are exact if and only if the paging is right; while no count wraps
around that is: no name is repeated in the mode for all, unless nothing matches, and either every
listed row matches or the matches are fewer than a page and among the first page of rows. -/
theorem listings_paged_exactly (s : Store) (userId : Nat) (n : UInt32) (hn : 0 < n) :
    (∀ args : ListOutputsArgs, OutputPagesExact s userId args n ↔
      PagesRight n.toNat 4294967296 (args.tagQueryMode == some .all) args.tags
        (matchesTags s userId args) (visibleOutputs s userId args.basket)) ∧
    (∀ args : ListActionsArgs, ActionPagesExact s userId args n ↔
      PagesRight n.toNat 4294967296 (args.labelQueryMode == some .all) args.labels
        (matchesLabels s userId args) (s.transactions.find (isListed userId))) ∧
    (∀ (α : Type) (isQueryModeAll : Bool) (names : List String) (p : α → Bool) (rows : List α),
      rows.length < 4294967296 →
        (PagesRight n.toNat 4294967296 isQueryModeAll names p rows ↔
          (isQueryModeAll = true → ¬names.Nodup → rows.filter p = []) ∧
          ((∀ a ∈ rows, p a = true) ∨
            ((rows.filter p).length < n.toNat ∧ ∀ a ∈ rows.drop n.toNat, p a = false)))) := by
  refine ⟨fun args => outputPagesExact_iff hn, fun args => actionPagesExact_iff hn, ?_⟩
  intro α isQueryModeAll names p rows hrows
  have hn' : 0 < n.toNat := hn
  rw [PagesRight, pagedExactly_iff hn' hrows]

/-- A store whose second action has a label and whose second output has a tag. -/
def pagingStore : Store :=
  (Prog.run Stmt.exec (do
    let (user, _) ← findOrInsertUser "alice"
    let label ← findOrInsertTxLabel user.userId "rent"
    let tag ← findOrInsertOutputTag user.userId "rent"
    let now ← utcNow
    let transaction (reference : String) : Transaction :=
      { createdAt := now, updatedAt := now, userId := user.userId, provenTxId := none
        status := .completed, reference, isOutgoing := true, satoshis := 1000, description := ""
        version := some 1, lockTime := none, txid := some reference, inputBeef := none, rawTx := none }
    let output (transactionId : Nat) : Output :=
      { createdAt := now, updatedAt := now, userId := user.userId, transactionId
        basketId := none, spendable := true, change := false, outputDescription := none, vout := 0
        satoshis := 1000, providedBy := .you, purpose := "", outputType := "", txid := none
        senderIdentityKey := none, derivationPrefix := none, derivationSuffix := none
        customInstructions := none, spentBy := none, sequenceNumber := none
        spendingDescription := none, scriptLength := none, scriptOffset := none
        lockingScript := none }
    let plain ← Storage.exec (.insertTransaction (transaction "plain"))
    let rent ← Storage.exec (.insertTransaction (transaction "rent"))
    let _ ← Storage.exec (.insertOutput (output plain))
    let tagged ← Storage.exec (.insertOutput (output rent))
    let _ ← Storage.exec (.insertOutputTagMap
      { createdAt := now, updatedAt := now, outputTagId := tag.outputTagId, outputId := tagged
        isDeleted := false })
    Storage.exec (.insertTxLabelMap
      { createdAt := now, updatedAt := now, txLabelId := label.txLabelId, transactionId := rent
        isDeleted := false })) (Store.empty.tick 1700000000000)).2

def rentOutputs : ListOutputsArgs :=
  { basket := "", tags := ["rent"], tagQueryMode := none, includes := none
    includeCustomInstructions := false, includeTags := true, includeLabels := true, limit := none
    offset := none }

def rentActions : ListActionsArgs :=
  { listingArgs with labels := ["rent"] }

/-- The first page of one row shows nothing and reports that nothing matches, of one match. -/
theorem rent_not_paged :
    ¬OutputPagesExact pagingStore 1 rentOutputs 1 ∧ ¬ActionPagesExact pagingStore 1 rentActions 1 := by
  constructor
  · rintro ⟨results, _, hok, htotals, _⟩
    have hone : (matchingOutputs pagingStore 1 rentOutputs).length = 1 := by decide +kernel
    have htotal := htotals 0 (by omega)
    have hfirst : (listOutputs pagingStore 1 (rentOutputs.page 1 0)).toOption.map
        (·.totalOutputs) = some 0 := by decide +kernel
    rw [hok, hone] at *
    rw [Except.toOption, Option.map_some, htotal] at hfirst
    cases hfirst
  · rintro ⟨results, _, hok, htotals, _⟩
    have hone : (matchingActions pagingStore 1 rentActions).length = 1 := by decide +kernel
    have htotal := htotals 0 (by omega)
    obtain ⟨actions, hlist, _⟩ := listActions_ok pagingStore 1 (rentActions.page 1 0)
    have hpage := selectTransactions_pages pagingStore 1 rentActions 1 0 (by decide)
    have hempty : endsEarly (rentActions.labelQueryMode == some .all) rentActions.labels
        (findLabelIds pagingStore 1 rentActions.labels) = false := by decide +kernel
    have hzero : pageTotal (1 : UInt32).toNat 4294967296
        (fun t => passes (rentActions.labelQueryMode == some .all)
          (findLabelIds pagingStore 1 rentActions.labels) (labelIdsOf pagingStore t))
        (pagingStore.transactions.find (isListed 1)) 0 = 0 := by decide +kernel
    rw [hempty] at hpage
    rw [hok, Except.ok.injEq] at hlist
    rw [hlist, hone] at htotal
    have hselect := congrArg Prod.snd hpage
    dsimp only at hselect htotal
    rw [htotal] at hselect
    simp only [Bool.false_eq_true, if_false, hzero] at hselect
    cases hselect

theorem listings_paged_exactly_rent :
    (∀ args : ListOutputsArgs, OutputPagesExact pagingStore 1 args 2 ↔
      PagesRight (2 : UInt32).toNat 4294967296 (args.tagQueryMode == some .all) args.tags
        (matchesTags pagingStore 1 args) (visibleOutputs pagingStore 1 args.basket)) ∧
    (∀ args : ListActionsArgs, ActionPagesExact pagingStore 1 args 2 ↔
      PagesRight (2 : UInt32).toNat 4294967296 (args.labelQueryMode == some .all) args.labels
        (matchesLabels pagingStore 1 args) (pagingStore.transactions.find (isListed 1))) :=
  have h := listings_paged_exactly pagingStore 1 2 (by decide)
  ⟨h.1, h.2.1⟩

end WalletToolbox.Storage
