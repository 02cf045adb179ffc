import Mathlib.Data.List.Perm.Basic
import WalletToolbox.Services.PostBeef

/-! # Whom failover contacts

The providers stand in front of the cursor or from the cursor on.
A failed attempt moves the cursor over the provider; one that also sends the provider to the end of
the list moves the cursor over its successor as well, which is then passed over. -/

namespace WalletToolbox

open WalletToolbox.Storage

/-! ## The providers from the cursor on -/

section Stretch

variable {α : Type} (ok falls : α → Bool)

/-- A success is found when the successor of every provider that falls back is passed over. -/
def findsSuccess : List α → Bool
  | [] => false
  | [p] => ok p
  | p :: q :: rest =>
    if ok p then true else if falls p then findsSuccess rest else findsSuccess (q :: rest)

/-- Nobody is contacted again: before the first success only the last provider of the stretch falls
back, or else a success is found on the way. -/
def isClear : List α → Bool
  | [] => true
  | [_] => true
  | p :: q :: rest =>
    if ok p then true else if falls p then findsSuccess ok falls rest else isClear (q :: rest)

end Stretch

/-! ## A failed attempt -/

section Failure

variable {τ : Type} {coll : ServiceCollection τ} {front rest : List (NamedService τ)}
  {p q : NamedService τ}

/-- The cursor is between the two lists, and there is a provider to call. -/
structure ServiceCollection.At (coll : ServiceCollection τ) (front rest : List (NamedService τ)) :
    Prop where
  services : coll.services = front ++ rest
  index : coll.index = front.length
  nonempty : rest ≠ []

theorem ServiceCollection.at_cursor (coll : ServiceCollection τ) (h : coll.services ≠ []) :
    coll.At (coll.services.take coll.index) (coll.services.drop coll.index) where
  services := (List.take_append_drop _ _).symm
  index := by
    have hlt := coll.index_lt h
    rw [List.length_take]
    omega
  nonempty := by
    have hlt := coll.index_lt h
    rw [Ne, List.drop_eq_nil_iff]
    omega

theorem ServiceCollection.At.serviceToCall (h : coll.At front (p :: rest)) :
    coll.serviceToCall = some p := by
  unfold ServiceCollection.serviceToCall
  rw [h.services, h.index, List.getElem?_append_right (Nat.le_refl _), Nat.sub_self]
  rfl

theorem ServiceCollection.At.next (h : coll.At front (p :: q :: rest)) :
    coll.next.At (front ++ [p]) (q :: rest) := by
  have hlen : coll.services.length = front.length + rest.length + 2 := by
    rw [h.services]
    simp only [List.length_append, List.length_cons]
    omega
  have hne : coll.services.isEmpty = false := by
    rw [List.isEmpty_eq_false_iff, ← List.length_pos_iff]
    omega
  refine ⟨?_, ?_, List.cons_ne_nil _ _⟩
  · show coll.services = _
    rw [h.services, List.append_assoc]
    rfl
  · show (if coll.services.isEmpty then _ else (coll.index + 1) % coll.services.length) = _
    rw [hne, h.index, List.length_append, List.length_singleton]
    exact Nat.mod_eq_of_lt (by omega)

/-- Past the last provider the cursor returns to the first. -/
theorem ServiceCollection.At.next_last (h : coll.At front [p]) :
    coll.next.At [] (front ++ [p]) := by
  have hlen : coll.services.length = front.length + 1 := by
    rw [h.services, List.length_append, List.length_singleton]
  have hne : coll.services.isEmpty = false := by
    rw [List.isEmpty_eq_false_iff, ← List.length_pos_iff]
    omega
  refine ⟨h.services, ?_, by simp⟩
  show (if coll.services.isEmpty then _ else (coll.index + 1) % coll.services.length) = _
  rw [hne, h.index, hlen]
  exact Nat.mod_self _

/-- The provider at the cursor goes to the end and its successor takes its place. -/
theorem ServiceCollection.At.moveServiceToLast (h : coll.At front (p :: rest))
    (hnames : (coll.services.map (·.name)).Nodup) :
    (coll.moveServiceToLast p.name).At front (rest ++ [p]) := by
  have hfind : coll.services.findIdx? (·.name == p.name) = some front.length := by
    rw [h.services, List.map_append, List.map_cons, List.nodup_append] at hnames
    rw [h.services, List.findIdx?_append, List.findIdx?_cons]
    have hfront : front.findIdx? (·.name == p.name) = none := by
      rw [List.findIdx?_eq_none_iff]
      intro r hr
      rw [beq_eq_false_iff_ne]
      exact hnames.2.2 _ (List.mem_map_of_mem hr) _ (List.mem_cons_self ..)
    rw [hfront, if_pos (beq_self_eq_true _)]
    simp
  have hat : coll.services[front.length]? = some p := by
    rw [← h.index]
    exact h.serviceToCall
  have herase : coll.services.eraseIdx front.length = front ++ rest := by
    rw [h.services, List.eraseIdx_append_of_length_le (Nat.le_refl _), Nat.sub_self]
    rfl
  unfold ServiceCollection.moveServiceToLast
  simp only [hfind]
  refine ⟨?_, ?_, by simp⟩
  · show coll.services.eraseIdx front.length ++ (coll.services[front.length]?).toList = _
    rw [hat, herase, List.append_assoc]
    rfl
  · show (if _ ≤ coll.index then 0 else coll.index) = front.length
    rw [hat, herase, h.index]
    refine if_neg ?_
    simp only [List.length_append, Option.toList_some, List.length_singleton]
    omega

theorem moveServiceToLast_perm (coll : ServiceCollection τ) (name : String) :
    (coll.moveServiceToLast name).services.Perm coll.services := by
  unfold ServiceCollection.moveServiceToLast
  cases hfind : coll.services.findIdx? (·.name == name) with
  | none => exact List.Perm.refl _
  | some pos =>
    obtain ⟨hlt, -⟩ := List.findIdx?_eq_some_iff_getElem.mp hfind
    show (coll.services.eraseIdx pos ++ (coll.services[pos]?).toList).Perm _
    rw [List.getElem?_eq_getElem hlt]
    exact (List.perm_append_singleton _ _).trans (List.getElem_cons_eraseIdx_perm hlt)

end Failure

/-! ## The attempts -/

variable {call : NamedService PostBeefProvider → PostBeefResult}
  {coll : ServiceCollection PostBeefProvider} {front rest : List (NamedService PostBeefProvider)}
  {p q : NamedService PostBeefProvider} {turns : Nat} {seen : List String}

/-- The provider answers with a success. -/
def succeeds (call : NamedService PostBeefProvider → PostBeefResult)
    (p : NamedService PostBeefProvider) : Bool :=
  (call p).isSuccess

/-- The provider goes to the end of the list when its attempt fails. -/
def fallsBack (call : NamedService PostBeefProvider → PostBeefResult)
    (p : NamedService PostBeefProvider) : Bool :=
  !(call p).isTimeout && (call p).allServiceError

/-- The names of the contacted providers, in order. -/
def contacted (call : NamedService PostBeefProvider → PostBeefResult) (turns : Nat)
    (coll : ServiceCollection PostBeefProvider) : List String :=
  (attempts call turns coll).1.map Prod.fst

/-- Nobody is contacted twice, nor any of those seen before. -/
def Fresh (seen names : List String) : Prop :=
  names.Nodup ∧ ∀ name ∈ names, name ∉ seen

theorem fresh_nil : Fresh seen [] := ⟨List.nodup_nil, nofun⟩

theorem fresh_cons {name : String} {names : List String} :
    Fresh seen (name :: names) ↔ name ∉ seen ∧ Fresh (name :: seen) names := by
  unfold Fresh
  rw [List.nodup_cons, List.forall_mem_cons]
  constructor
  · rintro ⟨⟨hnot, hnodup⟩, hname, hall⟩
    refine ⟨hname, hnodup, fun other hother hmem => ?_⟩
    rcases List.mem_cons.mp hmem with rfl | hmem
    · exact hnot hother
    · exact hall other hother hmem
  · rintro ⟨hname, hnodup, hall⟩
    exact ⟨⟨fun hmem => hall name hmem (List.mem_cons_self ..), hnodup⟩, hname,
      fun other hother hmem => hall other hother (List.mem_cons_of_mem _ hmem)⟩

theorem contacted_success (h : coll.At front (p :: rest)) (hok : succeeds call p = true) :
    contacted call (turns + 1) coll = [p.name] := by
  unfold succeeds at hok
  unfold contacted attempts
  rw [h.serviceToCall]
  simp only [hok, if_true]
  rfl

theorem contacted_failure (h : coll.At front (p :: rest)) (hfail : succeeds call p = false) :
    contacted call (turns + 1) coll =
      p.name :: contacted call turns (afterFailure coll p (call p)) := by
  unfold succeeds at hfail
  unfold contacted
  rw [attempts, h.serviceToCall]
  simp only [hfail]
  rfl

/-! ### Where a failed attempt leaves the cursor -/

theorem afterFailure_kept (h : coll.At front (p :: q :: rest)) (hkept : fallsBack call p = false) :
    (afterFailure coll p (call p)).At (front ++ [p]) (q :: rest) := by
  unfold fallsBack at hkept
  unfold afterFailure
  rw [if_neg (by rw [hkept]; decide)]
  exact h.next

theorem afterFailure_fallen (h : coll.At front (p :: q :: rest))
    (hnames : (coll.services.map (·.name)).Nodup) (hfallen : fallsBack call p = true) :
    (afterFailure coll p (call p)).At (front ++ [q]) (rest ++ [p]) := by
  unfold fallsBack at hfallen
  unfold afterFailure
  rw [if_pos hfallen]
  have hmoved := h.moveServiceToLast hnames
  rw [List.cons_append] at hmoved
  cases hrest : rest ++ [p] with
  | nil => simp at hrest
  | cons r rs =>
    rw [hrest] at hmoved
    exact hmoved.next

/-- The last provider is at the end of the list already. -/
theorem afterFailure_last (h : coll.At front [p]) (hnames : (coll.services.map (·.name)).Nodup) :
    (afterFailure coll p (call p)).At [] (front ++ [p]) := by
  unfold afterFailure
  by_cases hfallen : (!(call p).isTimeout && (call p).allServiceError) = true
  · rw [if_pos hfallen]
    exact (h.moveServiceToLast hnames).next_last
  · rw [if_neg hfallen]
    exact h.next_last

theorem afterFailure_perm (coll : ServiceCollection PostBeefProvider)
    (p : NamedService PostBeefProvider) (result : PostBeefResult) :
    (afterFailure coll p result).services.Perm coll.services := by
  unfold afterFailure
  split
  · exact moveServiceToLast_perm coll p.name
  · exact List.Perm.refl _

theorem afterFailure_names {result : PostBeefResult} (h : (coll.services.map (·.name)).Nodup) :
    ((afterFailure coll p result).services.map (·.name)).Nodup :=
  ((afterFailure_perm coll p result).map _).nodup_iff.mpr h

/-! ### Whether somebody is contacted twice -/

/-- Whoever is at the cursor is contacted. -/
theorem not_fresh_of_seen (h : coll.At front (p :: rest)) (hturns : 0 < turns)
    (hseen : p.name ∈ seen) : ¬Fresh seen (contacted call turns coll) := by
  obtain ⟨turns, rfl⟩ := Nat.exists_eq_succ_of_ne_zero (Nat.ne_of_gt hturns)
  have hmem : p.name ∈ contacted call (turns + 1) coll := by
    cases hok : succeeds call p with
    | true =>
      rw [contacted_success h hok]
      exact List.mem_singleton.mpr rfl
    | false =>
      rw [contacted_failure h hok]
      exact List.mem_cons_self ..
  exact fun hfresh => hfresh.2 p.name hmem hseen

/-- Nobody from the cursor on has been seen by the time the first of them is contacted. -/
theorem unseen_cons {zs ws : List (NamedService PostBeefProvider)} (h : coll.At front (p :: zs ++ ws))
    (hnames : (coll.services.map (·.name)).Nodup) (hzs : ∀ z ∈ p :: zs, z.name ∉ seen) :
    ∀ z ∈ zs, z.name ∉ p.name :: seen := by
  intro z hz hmem
  rcases List.mem_cons.mp hmem with hname | hmem
  · rw [h.services, List.map_append, List.nodup_append] at hnames
    have hrest := hnames.2.1
    rw [List.cons_append, List.map_cons, List.nodup_cons, ← hname] at hrest
    exact hrest.1 (List.mem_map_of_mem (List.mem_append_left _ hz))
  · exact hzs z (List.mem_cons_of_mem _ hz) hmem

/-- The same for those in front of the cursor. -/
theorem unseen_front {us cs : List (NamedService PostBeefProvider)} (h : coll.At (us ++ cs) (p :: rest))
    (hnames : (coll.services.map (·.name)).Nodup) (hus : ∀ u ∈ us, u.name ∉ seen) :
    ∀ u ∈ us, u.name ∉ p.name :: seen := by
  intro u hu hmem
  rcases List.mem_cons.mp hmem with hname | hmem
  · rw [h.services, List.map_append, List.nodup_append] at hnames
    exact hnames.2.2 _ (List.mem_map_of_mem (List.mem_append_left _ hu)) _ (List.mem_cons_self ..) hname
  · exact hus u hu hmem

theorem seen_snoc {ws : List (NamedService PostBeefProvider)} (hseen : ∀ w ∈ ws, w.name ∈ seen) :
    ∀ w ∈ ws ++ [p], w.name ∈ p.name :: seen := by
  intro w hw
  rcases List.mem_append.mp hw with hw | hw
  · exact List.mem_cons_of_mem _ (hseen w hw)
  · rw [List.mem_singleton.mp hw]
    exact List.mem_cons_self ..

/-- When providers seen before stand at the end of the list, only a success on the way to them
keeps one of them from being contacted again. -/
theorem fresh_iff_findsSuccess (zs : List (NamedService PostBeefProvider))
    {ws : List (NamedService PostBeefProvider)} (h : coll.At front (zs ++ ws)) (hws : ws ≠ [])
    (hturns : zs.length < turns) (hnames : (coll.services.map (·.name)).Nodup)
    (hseen : ∀ w ∈ ws, w.name ∈ seen) (hzs : ∀ z ∈ zs, z.name ∉ seen) :
    Fresh seen (contacted call turns coll) ↔
      findsSuccess (succeeds call) (fallsBack call) zs = true := by
  induction zs using findsSuccess.induct (succeeds call) (fallsBack call)
    generalizing coll front ws turns seen with
  | case1 =>
    obtain ⟨w, ws, rfl⟩ := List.exists_cons_of_ne_nil hws
    refine iff_of_false (not_fresh_of_seen h hturns (hseen w (List.mem_cons_self ..))) ?_
    simp [findsSuccess]
  | case2 p =>
    obtain ⟨w, ws, rfl⟩ := List.exists_cons_of_ne_nil hws
    obtain ⟨turns, rfl⟩ := Nat.exists_eq_succ_of_ne_zero (by omega : turns ≠ 0)
    have hp := hzs p (List.mem_cons_self ..)
    have hleft : 0 < turns := Nat.lt_of_succ_lt_succ hturns
    cases hok : succeeds call p with
    | true =>
      rw [contacted_success h hok, fresh_cons]
      exact iff_of_true ⟨hp, fresh_nil⟩ hok
    | false =>
      rw [contacted_failure h hok, fresh_cons]
      refine iff_of_false (fun hfresh => ?_) (by simp [findsSuccess, hok])
      have hw := List.mem_cons_of_mem p.name (hseen w (List.mem_cons_self ..))
      cases hfalls : fallsBack call p with
      | false => exact not_fresh_of_seen (afterFailure_kept h hfalls) hleft hw hfresh.2
      | true =>
        have hafter := afterFailure_fallen h hnames hfalls
        cases ws with
        | nil => exact not_fresh_of_seen hafter hleft (List.mem_cons_self ..) hfresh.2
        | cons w' ws =>
          have hw' := List.mem_cons_of_mem p.name (hseen w' (by simp))
          exact not_fresh_of_seen hafter hleft hw' hfresh.2
  | case3 p q rest hok =>
    obtain ⟨turns, rfl⟩ := Nat.exists_eq_succ_of_ne_zero (by omega : turns ≠ 0)
    rw [contacted_success h hok, fresh_cons, findsSuccess, if_pos hok]
    exact iff_of_true ⟨hzs p (List.mem_cons_self ..), fresh_nil⟩ rfl
  | case4 p q rest hnot hfalls ih =>
    obtain ⟨turns, rfl⟩ := Nat.exists_eq_succ_of_ne_zero (by omega : turns ≠ 0)
    have hfail := Bool.eq_false_iff.mpr hnot
    rw [contacted_failure h hfail, fresh_cons, and_iff_right (hzs p (List.mem_cons_self ..)),
      findsSuccess, if_neg hnot, if_pos hfalls]
    have hafter : (afterFailure coll p (call p)).At (front ++ [q]) (rest ++ (ws ++ [p])) := by
      rw [← List.append_assoc]
      exact afterFailure_fallen h hnames hfalls
    refine ih hafter (by simp) ?_ (afterFailure_names hnames) ?_ ?_
    · simp only [List.length_cons] at hturns
      omega
    · exact seen_snoc hseen
    · exact fun z hz => unseen_cons h hnames hzs z (List.mem_cons_of_mem _ hz)
  | case5 p q rest hnot hkept ih =>
    obtain ⟨turns, rfl⟩ := Nat.exists_eq_succ_of_ne_zero (by omega : turns ≠ 0)
    have hfail := Bool.eq_false_iff.mpr hnot
    rw [contacted_failure h hfail, fresh_cons, and_iff_right (hzs p (List.mem_cons_self ..)),
      findsSuccess, if_neg hnot, if_neg hkept]
    have hafter := afterFailure_kept h (Bool.eq_false_iff.mpr hkept)
    refine ih hafter hws ?_ (afterFailure_names hnames) ?_ ?_
    · simp only [List.length_cons] at hturns ⊢
      omega
    · exact fun w hw => List.mem_cons_of_mem _ (hseen w hw)
    · exact unseen_cons h hnames hzs

/-- Where the attempts end with the last provider not seen before, that one may fall back. -/
theorem fresh_iff_isClear (zs : List (NamedService PostBeefProvider))
    {ws : List (NamedService PostBeefProvider)} (h : coll.At front (zs ++ ws))
    (hnames : (coll.services.map (·.name)).Nodup) (hseen : ∀ w ∈ ws, w.name ∈ seen)
    (hzs : ∀ z ∈ zs, z.name ∉ seen) :
    Fresh seen (contacted call zs.length coll) ↔
      isClear (succeeds call) (fallsBack call) zs = true := by
  induction zs using isClear.induct (succeeds call) (fallsBack call)
    generalizing coll front seen with
  | case1 => exact iff_of_true fresh_nil rfl
  | case2 p =>
    refine iff_of_true ?_ rfl
    have hp := hzs p (List.mem_cons_self ..)
    cases hok : succeeds call p with
    | true =>
      rw [List.length_singleton, contacted_success h hok, fresh_cons]
      exact ⟨hp, fresh_nil⟩
    | false =>
      rw [List.length_singleton, contacted_failure h hok, fresh_cons]
      exact ⟨hp, fresh_nil⟩
  | case3 p q rest hok =>
    rw [List.length_cons, contacted_success h hok, fresh_cons, isClear, if_pos hok]
    exact iff_of_true ⟨hzs p (List.mem_cons_self ..), fresh_nil⟩ rfl
  | case4 p q rest hnot hfalls =>
    have hfail := Bool.eq_false_iff.mpr hnot
    rw [List.length_cons, contacted_failure h hfail, fresh_cons,
      and_iff_right (hzs p (List.mem_cons_self ..)), isClear, if_neg hnot, if_pos hfalls]
    have hafter : (afterFailure coll p (call p)).At (front ++ [q]) (rest ++ (ws ++ [p])) := by
      rw [← List.append_assoc]
      exact afterFailure_fallen h hnames hfalls
    refine fresh_iff_findsSuccess rest hafter (by simp) ?_ (afterFailure_names hnames) ?_ ?_
    · rw [List.length_cons]
      omega
    · exact seen_snoc hseen
    · exact fun z hz => unseen_cons h hnames hzs z (List.mem_cons_of_mem _ hz)
  | case5 p q rest hnot hkept ih =>
    have hfail := Bool.eq_false_iff.mpr hnot
    rw [List.length_cons, contacted_failure h hfail, fresh_cons,
      and_iff_right (hzs p (List.mem_cons_self ..)), isClear, if_neg hnot, if_neg hkept]
    have hafter := afterFailure_kept h (Bool.eq_false_iff.mpr hkept)
    exact ih hafter (afterFailure_names hnames) (fun w hw => List.mem_cons_of_mem _ (hseen w hw))
      (unseen_cons h hnames hzs)

theorem exists_of_findsSuccess {α : Type} {ok falls : α → Bool} (zs : List α)
    (h : findsSuccess ok falls zs = true) : ∃ z ∈ zs, ok z = true := by
  induction zs using findsSuccess.induct ok falls with
  | case1 => cases h
  | case2 p => exact ⟨p, List.mem_cons_self .., h⟩
  | case3 p q rest hok => exact ⟨p, List.mem_cons_self .., hok⟩
  | case4 p q rest hnot hfalls ih =>
    rw [findsSuccess, if_neg hnot, if_pos hfalls] at h
    obtain ⟨z, hz, hok⟩ := ih h
    exact ⟨z, by simp [hz], hok⟩
  | case5 p q rest hnot hkept ih =>
    rw [findsSuccess, if_neg hnot, if_neg hkept] at h
    obtain ⟨z, hz, hok⟩ := ih h
    exact ⟨z, List.mem_cons_of_mem _ hz, hok⟩

/-- The attempts of a call from the cursor on: first up to the end of the list, then those in front
of the cursor. -/
theorem fresh_iff_of_cursor (zs : List (NamedService PostBeefProvider))
    {us cs : List (NamedService PostBeefProvider)} (h : coll.At (us ++ cs) zs)
    (hnames : (coll.services.map (·.name)).Nodup) (hseen : ∀ c ∈ cs, c.name ∈ seen)
    (hus : ∀ u ∈ us, u.name ∉ seen) (hzs : ∀ z ∈ zs, z.name ∉ seen) :
    Fresh seen (contacted call (zs.length + us.length) coll) ↔
      isClear (succeeds call) (fallsBack call) zs = true ∧
        ((∀ z ∈ zs, succeeds call z = false) →
          isClear (succeeds call) (fallsBack call) us = true) := by
  induction zs using isClear.induct (succeeds call) (fallsBack call)
    generalizing coll cs seen with
  | case1 => exact absurd rfl h.nonempty
  | case2 p =>
    have hp := hzs p (List.mem_cons_self ..)
    rw [List.length_singleton, Nat.add_comm 1]
    cases hok : succeeds call p with
    | true =>
      rw [contacted_success h hok, fresh_cons]
      refine iff_of_true ⟨hp, fresh_nil⟩ ⟨rfl, fun hnone => ?_⟩
      rw [hnone p (List.mem_cons_self ..)] at hok
      cases hok
    | false =>
      have hafter : (afterFailure coll p (call p)).At [] (us ++ (cs ++ [p])) := by
        rw [← List.append_assoc]
        exact afterFailure_last h hnames
      have hus' := unseen_front h hnames hus
      rw [contacted_failure h hok, fresh_cons, and_iff_right hp,
        fresh_iff_isClear us hafter (afterFailure_names hnames) (seen_snoc hseen) hus']
      refine ⟨fun hclear => ⟨rfl, fun _ => hclear⟩, fun hboth => hboth.2 fun z hz => ?_⟩
      rw [List.mem_singleton.mp hz]
      exact hok
  | case3 p q rest hok =>
    rw [List.length_cons, Nat.add_right_comm, contacted_success h hok, fresh_cons, isClear, if_pos hok]
    refine iff_of_true ⟨hzs p (List.mem_cons_self ..), fresh_nil⟩ ⟨rfl, fun hnone => ?_⟩
    rw [hnone p (List.mem_cons_self ..)] at hok
    cases hok
  | case4 p q rest hnot hfalls =>
    have hfail := Bool.eq_false_iff.mpr hnot
    rw [List.length_cons, Nat.add_right_comm, contacted_failure h hfail, fresh_cons,
      and_iff_right (hzs p (List.mem_cons_self ..)), isClear, if_neg hnot, if_pos hfalls]
    have hafter := afterFailure_fallen h hnames hfalls
    have hrest : ∀ z ∈ rest, z.name ∉ p.name :: seen := by
      intro z hz
      rw [← List.append_nil (p :: q :: rest)] at h
      exact unseen_cons h hnames hzs z (List.mem_cons_of_mem _ hz)
    have hmore : rest.length < (q :: rest).length + us.length := by
      rw [List.length_cons]
      omega
    rw [fresh_iff_findsSuccess rest hafter (by simp) hmore (afterFailure_names hnames)
      (List.forall_mem_singleton.mpr (List.mem_cons_self ..)) hrest]
    refine ⟨fun hfound => ⟨hfound, fun hnone => ?_⟩, And.left⟩
    -- the second stretch is not reached
    obtain ⟨z, hz, hok⟩ := exists_of_findsSuccess rest hfound
    rw [hnone z (by simp [hz])] at hok
    cases hok
  | case5 p q rest hnot hkept ih =>
    have hfail := Bool.eq_false_iff.mpr hnot
    rw [List.length_cons, Nat.add_right_comm, contacted_failure h hfail, fresh_cons,
      and_iff_right (hzs p (List.mem_cons_self ..)), isClear, if_neg hnot, if_neg hkept]
    have hafter : (afterFailure coll p (call p)).At (us ++ (cs ++ [p])) (q :: rest) := by
      rw [← List.append_assoc]
      exact afterFailure_kept h (Bool.eq_false_iff.mpr hkept)
    have hq := h
    rw [← List.append_nil (p :: q :: rest)] at hq
    have hus' := unseen_front h hnames hus
    rw [ih hafter (afterFailure_names hnames) (seen_snoc hseen) hus' (unseen_cons hq hnames hzs)]
    simp only [List.forall_mem_cons, hfail, true_and]

/-! ### What the attempts say -/

theorem mem_attempts {name : String} {result : PostBeefResult}
    (h : (name, result) ∈ (attempts call turns coll).1) :
    ∃ p ∈ coll.services, p.name = name ∧ call p = result := by
  induction turns generalizing coll with
  | zero => cases h
  | succ turns ih =>
    unfold attempts at h
    cases hcall : coll.serviceToCall with
    | none =>
      rw [hcall] at h
      cases h
    | some p =>
      have hmem : p ∈ coll.services := List.mem_of_getElem? hcall
      rw [hcall] at h
      by_cases hok : (call p).isSuccess = true
      · simp only [if_pos hok] at h
        obtain ⟨rfl, rfl⟩ := Prod.mk.inj (List.mem_singleton.mp h)
        exact ⟨p, hmem, rfl, rfl⟩
      · simp only [if_neg hok] at h
        rcases List.mem_cons.mp h with heq | h
        · obtain ⟨rfl, rfl⟩ := Prod.mk.inj heq
          exact ⟨p, hmem, rfl, rfl⟩
        · obtain ⟨p', hmem', hp'⟩ := ih h
          exact ⟨p', (afterFailure_perm coll p (call p)).mem_iff.mp hmem', hp'⟩

/-- Nothing follows a success. -/
theorem attempts_stop (turns : Nat) (coll : ServiceCollection PostBeefProvider)
    {before after : List (String × PostBeefResult)} {x : String × PostBeefResult}
    (h : (attempts call turns coll).1 = before ++ x :: after) (hok : x.2.isSuccess = true) :
    after = [] := by
  induction turns generalizing coll before with
  | zero => simp [attempts] at h
  | succ turns ih =>
    unfold attempts at h
    cases hcall : coll.serviceToCall with
    | none =>
      rw [hcall] at h
      simp at h
    | some p =>
      rw [hcall] at h
      by_cases hsuccess : (call p).isSuccess = true
      · simp only [if_pos hsuccess] at h
        rw [eq_comm, List.append_eq_singleton_iff] at h
        rcases h with ⟨-, h⟩ | ⟨-, h⟩
        · exact (List.cons.inj h).2
        · cases h
      · simp only [if_neg hsuccess] at h
        cases before with
        | nil =>
          obtain ⟨rfl, -⟩ := List.cons.inj h
          exact absurd hok hsuccess
        | cons y before => exact ih _ (List.cons.inj h).2

/-- Without a success no turn is left. -/
theorem length_attempts {turns : Nat} {coll : ServiceCollection PostBeefProvider}
    (hne : coll.services ≠ []) (hnone : ∀ x ∈ (attempts call turns coll).1, x.2.isSuccess = false) :
    (attempts call turns coll).1.length = turns := by
  induction turns generalizing coll with
  | zero => rfl
  | succ turns ih =>
    obtain ⟨p, hcall⟩ : ∃ p, coll.serviceToCall = some p :=
      ⟨_, List.getElem?_eq_getElem (coll.index_lt hne)⟩
    unfold attempts at hnone ⊢
    rw [hcall] at hnone ⊢
    by_cases hsuccess : (call p).isSuccess = true
    · simp only [if_pos hsuccess] at hnone
      rw [hnone _ (List.mem_singleton.mpr rfl)] at hsuccess
      cases hsuccess
    · simp only [if_neg hsuccess] at hnone ⊢
      have hne' : (afterFailure coll p (call p)).services ≠ [] := by
        intro heq
        have hperm := afterFailure_perm coll p (call p)
        rw [heq] at hperm
        exact hne hperm.nil_eq.symm
      rw [List.length_cons, ih hne' fun x hx => hnone x (List.mem_cons_of_mem _ hx)]

theorem attempts_perm (turns : Nat) (coll : ServiceCollection PostBeefProvider) :
    (attempts call turns coll).2.services.Perm coll.services := by
  induction turns generalizing coll with
  | zero => exact List.Perm.refl _
  | succ turns ih =>
    unfold attempts
    cases hcall : coll.serviceToCall with
    | none => exact List.Perm.refl _
    | some p =>
      simp only
      split
      · exact List.Perm.refl _
      · exact (ih _).trans (afterFailure_perm coll p (call p))

/-! ## The whole call -/

section WholeCall

variable {beef : Bytes} {txids : List String} {softTimeoutMs : Nat}

/-- The names that a call contacts, in order. -/
def contactedBy (beef : Bytes) (txids : List String) (softTimeoutMs : Nat)
    (coll : ServiceCollection PostBeefProvider) : List String :=
  contacted (callProvider beef txids softTimeoutMs) coll.services.length coll

/-- A call contacts nobody twice, stops at the first success and gives up only when it has contacted
everybody; and the cursor stays in the list after any number of attempts. -/
structure TriesEverybody (beef : Bytes) (txids : List String) (softTimeoutMs : Nat)
    (coll : ServiceCollection PostBeefProvider) : Prop where
  once : (contactedBy beef txids softTimeoutMs coll).Nodup
  stops : ∀ before r after,
    (postBeefUntilSuccess beef txids softTimeoutMs coll).1 = before ++ r :: after →
      r.isSuccess = true → after = []
  everybody : (∀ r ∈ (postBeefUntilSuccess beef txids softTimeoutMs coll).1, r.isSuccess = false) →
    ∀ p ∈ coll.services, p.name ∈ contactedBy beef txids softTimeoutMs coll
  found : (∃ p ∈ coll.services, (callProvider beef txids softTimeoutMs p).isSuccess = true) →
    ∃ r ∈ (postBeefUntilSuccess beef txids softTimeoutMs coll).1, r.isSuccess = true
  cursor : ∀ turns, (attempts (callProvider beef txids softTimeoutMs) turns coll).2.index <
    coll.services.length

theorem attempts_ne_nil {turns : Nat} (hne : coll.services ≠ []) :
    (attempts call (turns + 1) coll).1 ≠ [] := by
  obtain ⟨p, hcall⟩ : ∃ p, coll.serviceToCall = some p :=
    ⟨_, List.getElem?_eq_getElem (coll.index_lt hne)⟩
  unfold attempts
  rw [hcall]
  by_cases hsuccess : (call p).isSuccess = true
  · simp only [if_pos hsuccess]
    exact List.cons_ne_nil _ _
  · simp only [if_neg hsuccess]
    exact List.cons_ne_nil _ _

theorem results_eq (hne : coll.services ≠ []) :
    (postBeefUntilSuccess beef txids softTimeoutMs coll).1 =
      (attempts (callProvider beef txids softTimeoutMs) coll.services.length coll).1.map Prod.snd := by
  obtain ⟨n, hn⟩ := Nat.exists_eq_succ_of_ne_zero (List.length_pos_iff.mpr hne).ne'
  have htried : (attempts (callProvider beef txids softTimeoutMs) (n + 1) coll).1 ≠ [] :=
    attempts_ne_nil hne
  unfold postBeefUntilSuccess
  rw [hn]
  simp only
  rw [if_neg (by simpa using htried)]

/-- Failover keeps its promises exactly when nobody is contacted twice. -/
theorem triesEverybody_iff_nodup (hne : coll.services ≠ [])
    (hnames : (coll.services.map (·.name)).Nodup) :
    TriesEverybody beef txids softTimeoutMs coll ↔
      (contactedBy beef txids softTimeoutMs coll).Nodup := by
  refine ⟨TriesEverybody.once, fun honce => ?_⟩
  have heverybody :
      (∀ r ∈ (postBeefUntilSuccess beef txids softTimeoutMs coll).1, r.isSuccess = false) →
        ∀ p ∈ coll.services, p.name ∈ contactedBy beef txids softTimeoutMs coll := by
    intro hnone p hp
    rw [results_eq hne] at hnone
    have hlength := length_attempts hne fun x hx => hnone x.2 (List.mem_map_of_mem hx)
    have hsubset : contactedBy beef txids softTimeoutMs coll ⊆ coll.services.map (·.name) := by
      intro name hname
      obtain ⟨⟨_, result⟩, hx, rfl⟩ := List.mem_map.mp hname
      obtain ⟨p', hp', hname', -⟩ := mem_attempts hx
      exact List.mem_map.mpr ⟨p', hp', hname'⟩
    have hperm : (contactedBy beef txids softTimeoutMs coll).Perm (coll.services.map (·.name)) := by
      refine (List.subperm_of_subset honce hsubset).perm_of_length_le ?_
      unfold contactedBy contacted
      rw [List.length_map, List.length_map, hlength]
    exact hperm.mem_iff.mpr (List.mem_map_of_mem hp)
  refine ⟨honce, ?_, heverybody, ?_, ?_⟩
  · intro before r after heq hok
    rw [results_eq hne, List.map_eq_append_iff] at heq
    obtain ⟨before', rest, hsplit, -, hrest⟩ := heq
    obtain ⟨x, after', rfl, rfl, rfl⟩ := List.map_eq_cons_iff.mp hrest
    rw [attempts_stop _ _ hsplit hok]
    rfl
  · rintro ⟨p, hp, hok⟩
    by_contra hnot
    have hnone : ∀ r ∈ (postBeefUntilSuccess beef txids softTimeoutMs coll).1,
        r.isSuccess = false := fun r hr => Bool.eq_false_iff.mpr fun h => hnot ⟨r, hr, h⟩
    obtain ⟨⟨name, result⟩, hx, hname⟩ := List.mem_map.mp (heverybody hnone p hp)
    obtain ⟨p', hp', hname', hresult⟩ := mem_attempts hx
    -- the one of that name is the provider itself
    have hsame : p' = p := List.inj_on_of_nodup_map hnames hp' hp (hname'.trans hname)
    rw [results_eq hne] at hnone
    have hfalse := hnone result (List.mem_map.mpr ⟨_, hx, rfl⟩)
    rw [← hresult, hsame, hok] at hfalse
    cases hfalse
  · intro turns
    have hperm : (attempts (callProvider beef txids softTimeoutMs) turns coll).2.services.Perm _ :=
      attempts_perm turns coll
    rw [← hperm.length_eq]
    refine ServiceCollection.index_lt _ fun heq => ?_
    rw [heq] at hperm
    exact hne hperm.nil_eq.symm

/-- Failover keeps its promises exactly when on the way from the cursor to the end of the list, and
without a success there also on the way to the cursor, either nobody but the last provider falls back
before the first success, or a success is found although the successors of those who fall back are
passed over. -/
theorem triesEverybody_iff (beef : Bytes) (txids : List String) (softTimeoutMs : Nat)
    (coll : ServiceCollection PostBeefProvider) (hne : coll.services ≠ [])
    (hnames : (coll.services.map (·.name)).Nodup) :
    TriesEverybody beef txids softTimeoutMs coll ↔
      isClear (succeeds (callProvider beef txids softTimeoutMs))
          (fallsBack (callProvider beef txids softTimeoutMs)) (coll.services.drop coll.index) = true ∧
        ((∀ p ∈ coll.services.drop coll.index,
            succeeds (callProvider beef txids softTimeoutMs) p = false) →
          isClear (succeeds (callProvider beef txids softTimeoutMs))
            (fallsBack (callProvider beef txids softTimeoutMs)) (coll.services.take coll.index) =
              true) := by
  have hat : coll.At (coll.services.take coll.index ++ []) (coll.services.drop coll.index) := by
    rw [List.append_nil]
    exact coll.at_cursor hne
  have hturns : (coll.services.drop coll.index).length + (coll.services.take coll.index).length =
      coll.services.length := by
    rw [Nat.add_comm, ← List.length_append, List.take_append_drop]
  have honce : (contactedBy beef txids softTimeoutMs coll).Nodup ↔
      Fresh [] (contactedBy beef txids softTimeoutMs coll) :=
    ⟨fun h => ⟨h, fun _ _ => List.not_mem_nil⟩, And.left⟩
  rw [triesEverybody_iff_nodup hne hnames, honce, contactedBy, ← hturns]
  exact fresh_iff_of_cursor _ hat hnames nofun (fun _ _ => List.not_mem_nil) fun _ _ => List.not_mem_nil

/-- A provider with one answer for every transaction. -/
def answering (name status : String) (serviceError : Option Bool) :
    NamedService PostBeefProvider where
  name := name
  service :=
    { postBeef := fun _ txids =>
        { name, status, txidResults := txids.map fun txid => { txid, status, serviceError } }
      msecs := fun _ _ => 100 }

/-- A provider that is down stands before one that accepts everything. -/
def downThenUp (index : Nat) (h : index ≠ 0 → index < 2) : ServiceCollection PostBeefProvider where
  services := [answering "GorillaPool" "error" (some true), answering "TAAL" "success" none]
  index := index
  inRange := h

/-- The provider that is down is contacted twice and the other one never. -/
theorem triesEverybody_not_downThenUp :
    ¬∀ (beef : Bytes) (txids : List String) (softTimeoutMs : Nat)
      (coll : ServiceCollection PostBeefProvider), coll.services ≠ [] →
        (coll.services.map (·.name)).Nodup → TriesEverybody beef txids softTimeoutMs coll := by
  intro h
  have honce := (h [] ["txid"] 0 (downThenUp 0 (by decide)) (by simp [downThenUp])
    (by simp [downThenUp, answering])).once
  have hcontacted : contactedBy [] ["txid"] 0 (downThenUp 0 (by decide)) =
      ["GorillaPool", "GorillaPool"] := by decide +kernel
  rw [hcontacted] at honce
  simp at honce

/-- With the cursor at the one that accepts, failover works. -/
theorem triesEverybody_downThenUp :
    TriesEverybody [] ["txid"] 0 (downThenUp 1 (by decide)) :=
  (triesEverybody_iff [] ["txid"] 0 (downThenUp 1 (by decide)) (by simp [downThenUp])
    (by simp [downThenUp, answering])).mpr ⟨by decide +kernel, fun _ => by decide +kernel⟩

end WholeCall

end WalletToolbox
