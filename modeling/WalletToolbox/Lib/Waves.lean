import Mathlib.Data.Set.Finite.Basic
import Mathlib.Data.List.Perm.Basic
import Mathlib.Logic.Relation
import Mathlib.Order.WellFounded
import Mathlib.Tactic.Common

/-! # Jobs in waves

A job waits for other jobs.
The pending jobs run in waves: a wave takes every job that waits for no pending one, and the first
job when there is none, so the waves end whatever waits for what.
Without a cycle nothing runs before what it waits for.
The jobs of a wave run in groups, and what is seen of a group comes in any order that keeps the
events of each job in theirs. -/

namespace WalletToolbox.Lib.Waves

variable {α ε : Type} (isReady : List α → α → Bool)

/-- The next wave of the pending jobs. -/
def wave (pending : List α) : List α :=
  if pending.filter (isReady pending) = [] then pending.head?.toList
  else pending.filter (isReady pending)

/-- The jobs that are pending after it. -/
def rest [DecidableEq α] (pending : List α) : List α :=
  pending.filter fun a => !(wave isReady pending).contains a

/-- All waves; `none` when they need more turns. -/
def waves [DecidableEq α] : Nat → List α → Option (List (List α))
  | _, [] => some []
  | 0, _ :: _ => none
  | turns + 1, a :: pending =>
    (waves turns (rest isReady (a :: pending))).map (wave isReady (a :: pending) :: ·)

/-- A job is ready when nothing that it waits for is pending. -/
def Reads (waits : α → α → Prop) : Prop :=
  ∀ pending a, isReady pending a = true ↔ ∀ b ∈ pending, ¬waits a b

variable {isReady} {waits : α → α → Prop} {pending : List α} {turns : Nat} {ws : List (List α)}

/-! ## The waves end -/

theorem wave_eq_ready (h : pending.filter (isReady pending) ≠ []) :
    wave isReady pending = pending.filter (isReady pending) :=
  if_neg h

theorem wave_sublist : (wave isReady pending).Sublist pending := by
  unfold wave
  split
  · cases pending with
    | nil => exact List.Sublist.slnil
    | cons a pending => exact List.singleton_sublist.mpr List.mem_cons_self
  · exact List.filter_sublist

theorem wave_ne_nil (h : pending ≠ []) : wave isReady pending ≠ [] := by
  obtain ⟨a, pending, rfl⟩ := List.exists_cons_of_ne_nil h
  unfold wave
  split
  · exact List.cons_ne_nil _ _
  · assumption

section Waves

variable [DecidableEq α]

@[simp] theorem mem_rest {a : α} :
    a ∈ rest isReady pending ↔ a ∈ pending ∧ a ∉ wave isReady pending := by
  simp [rest]

theorem length_rest_lt (h : pending ≠ []) :
    (rest isReady pending).length < pending.length := by
  obtain ⟨a, ha⟩ := List.exists_mem_of_ne_nil _ (@wave_ne_nil _ isReady _ h)
  exact List.length_filter_lt_length_iff_exists.mpr
    ⟨a, wave_sublist.subset ha, by simpa using ha⟩

theorem waves_succ (h : pending ≠ []) :
    waves isReady (turns + 1) pending =
      (waves isReady turns (rest isReady pending)).map (wave isReady pending :: ·) := by
  obtain ⟨a, pending, rfl⟩ := List.exists_cons_of_ne_nil h
  rfl

/-- Every wave takes a job, so there are at most as many as jobs. -/
theorem waves_end (h : pending.length ≤ turns) : ∃ ws, waves isReady turns pending = some ws := by
  induction turns generalizing pending with
  | zero => exact ⟨[], by rw [List.eq_nil_of_length_eq_zero (Nat.le_zero.mp h)]; rfl⟩
  | succ turns ih =>
    by_cases hnil : pending = []
    · exact ⟨[], by rw [hnil]; rfl⟩
    · have hlt := @length_rest_lt _ isReady _ _ hnil
      obtain ⟨ws, hws⟩ := @ih (rest isReady pending) (by omega)
      exact ⟨wave isReady pending :: ws, by rw [waves_succ hnil, hws]; rfl⟩

/-- What the waves of some jobs are: none, or the first wave and those of the rest. -/
theorem waves_cases (h : waves isReady turns pending = some ws) :
    pending = [] ∧ ws = [] ∨ pending ≠ [] ∧ ∃ n ws', turns = n + 1 ∧
      waves isReady n (rest isReady pending) = some ws' ∧ ws = wave isReady pending :: ws' := by
  by_cases hnil : pending = []
  · subst hnil
    left
    cases turns <;> exact ⟨rfl, (Option.some.inj h).symm⟩
  · right
    refine ⟨hnil, ?_⟩
    cases turns with
    | zero =>
      obtain ⟨a, pending, rfl⟩ := List.exists_cons_of_ne_nil hnil
      cases h
    | succ turns =>
      rw [waves_succ hnil, Option.map_eq_some_iff] at h
      obtain ⟨ws', hws', rfl⟩ := h
      exact ⟨turns, ws', rfl, hws', rfl⟩

theorem wave_append_rest (h : pending.Nodup) :
    (wave isReady pending ++ rest isReady pending).Perm pending := by
  have hdisjoint : (wave isReady pending).Disjoint (rest isReady pending) := by
    intro a hwave hrest
    exact (mem_rest.mp hrest).2 hwave
  have hnodup := (wave_sublist.nodup h).append (h.filter _) hdisjoint
  refine (List.perm_ext_iff_of_nodup hnodup h).mpr fun a => ?_
  change a ∈ wave isReady pending ++ rest isReady pending ↔ a ∈ pending
  rw [List.mem_append, mem_rest]
  constructor
  · rintro (ha | ha)
    · exact wave_sublist.subset ha
    · exact ha.1
  · intro ha
    by_cases hwave : a ∈ wave isReady pending
    · exact Or.inl hwave
    · exact Or.inr ⟨ha, hwave⟩

/-- Every pending job runs in one wave. -/
theorem waves_perm (hnodup : pending.Nodup) (h : waves isReady turns pending = some ws) :
    ws.flatten.Perm pending := by
  induction turns generalizing pending ws with
  | zero =>
    obtain ⟨rfl, rfl⟩ | ⟨_, n, _, hn, _⟩ := waves_cases h
    · rfl
    · omega
  | succ turns ih =>
    obtain ⟨rfl, rfl⟩ | ⟨_, n, ws', hn, hws', rfl⟩ := waves_cases h
    · rfl
    · obtain rfl : turns = n := by omega
      rw [List.flatten_cons]
      exact ((ih (hnodup.filter _) hws').append_left _).trans (wave_append_rest hnodup)

end Waves

/-! ## Without a cycle -/

section Acyclic

variable (hreads : Reads isReady waits) (hacyclic : ∀ a, ¬Relation.TransGen waits a a)
include hacyclic

/-- Some pending job waits for no pending one. -/
theorem exists_free (h : pending ≠ []) : ∃ a ∈ pending, ∀ b ∈ pending, ¬waits a b := by
  let before : {a // a ∈ pending} → {a // a ∈ pending} → Prop :=
    fun b a => Relation.TransGen waits a.1 b.1
  have : IsTrans _ before := ⟨fun _ _ _ hcb hba => hba.trans hcb⟩
  have : Std.Irrefl before := ⟨fun a => hacyclic a.1⟩
  have : Finite {a // a ∈ pending} := (List.finite_toSet pending).to_subtype
  obtain ⟨a, ha⟩ := List.exists_mem_of_ne_nil _ h
  obtain ⟨m, _, hmin⟩ := (Finite.wellFounded_of_trans_of_irrefl before).has_min Set.univ
    ⟨⟨a, ha⟩, trivial⟩
  exact ⟨m.1, m.2, fun b hb hwaits => hmin ⟨b, hb⟩ trivial (.single hwaits)⟩

include hreads

/-- A wave takes the ready jobs. -/
theorem wave_eq_filter : wave isReady pending = pending.filter (isReady pending) := by
  by_cases hnil : pending = []
  · rw [hnil]
    rfl
  · obtain ⟨a, ha, hfree⟩ := exists_free hacyclic hnil
    have hready := List.mem_filter.mpr ⟨ha, (hreads pending a).mpr hfree⟩
    exact wave_eq_ready (List.ne_nil_of_mem hready)

theorem mem_wave {a : α} :
    a ∈ wave isReady pending ↔ a ∈ pending ∧ ∀ b ∈ pending, ¬waits a b := by
  rw [wave_eq_filter hreads hacyclic, List.mem_filter, hreads]

variable [DecidableEq α]

/-- What a job of a wave waits for is in an earlier wave. -/
theorem mem_earlier_of_waits {pre post : List (List α)} {w : List α} {a b : α}
    (h : waves isReady turns pending = some (pre ++ w :: post)) (ha : a ∈ w) (hwaits : waits a b)
    (hb : b ∈ pending) : b ∈ pre.flatten := by
  induction pre generalizing turns pending with
  | nil =>
    obtain ⟨_, hnone⟩ | ⟨_, _, _, _, _, hcons⟩ := waves_cases h
    · cases hnone
    · obtain ⟨rfl, -⟩ := List.cons.inj hcons
      exact absurd hwaits (((mem_wave hreads hacyclic).mp ha).2 b hb)
  | cons first pre ih =>
    obtain ⟨_, hnone⟩ | ⟨_, n, ws', _, hws', hcons⟩ := waves_cases h
    · cases hnone
    · obtain ⟨rfl, rfl⟩ := List.cons.inj hcons
      rw [List.flatten_cons, List.mem_append]
      by_cases hwave : b ∈ wave isReady pending
      · exact Or.inl hwave
      · exact Or.inr (ih hws' (mem_rest.mpr ⟨hb, hwave⟩))

/-- Jobs that wait for the same are in the same wave. -/
theorem mem_earlier_of_same {pre post : List (List α)} {b b' : α}
    (h : waves isReady turns pending = some (pre ++ post)) (hsame : ∀ c, waits b' c → waits b c)
    (hb : b ∈ pending) (hb' : b' ∈ pending) (hearlier : b ∈ pre.flatten) : b' ∈ pre.flatten := by
  induction pre generalizing turns pending with
  | nil => cases hearlier
  | cons first pre ih =>
    obtain ⟨_, hnone⟩ | ⟨_, n, ws', _, hws', hcons⟩ := waves_cases h
    · cases hnone
    · obtain ⟨rfl, rfl⟩ := List.cons.inj hcons
      rw [List.flatten_cons, List.mem_append] at hearlier ⊢
      by_cases hwave' : b' ∈ wave isReady pending
      · exact Or.inl hwave'
      · have hwave : b ∉ wave isReady pending := by
          rw [mem_wave hreads hacyclic] at hwave' ⊢
          exact fun hfree => hwave' ⟨hb', fun c hc hwaits => hfree.2 c hc (hsame c hwaits)⟩
        exact Or.inr (ih hws' (mem_rest.mpr ⟨hb, hwave⟩) (mem_rest.mpr ⟨hb', hwave'⟩)
          (hearlier.resolve_left hwave))

end Acyclic

/-! ## What is seen of the groups -/

section Run

variable (events : α → List ε)

/-- The jobs of a group run at the same time. -/
structure Together (group : List α) (trace : List ε) : Prop where
  perm : trace.Perm (group.flatMap events)
  inOrder : ∀ a ∈ group, (events a).Sublist trace

/-- A run of groups, each after the one before it. -/
inductive Run : List (List α) → List ε → Prop where
  | done : Run [] []
  | group {group : List α} {groups : List (List α)} {trace trace' : List ε} :
    Together events group trace → Run groups trace' → Run (group :: groups) (trace ++ trace')

variable {events} {groups groups' : List (List α)} {trace : List ε}

theorem Run.perm (h : Run events groups trace) : trace.Perm (groups.flatten.flatMap events) := by
  induction h with
  | done => rfl
  | group htogether _ ih =>
    rw [List.flatten_cons, List.flatMap_append]
    exact htogether.perm.append ih

theorem Run.split (h : Run events (groups ++ groups') trace) :
    ∃ before after, trace = before ++ after ∧ Run events groups before ∧ Run events groups' after := by
  induction groups generalizing trace with
  | nil => exact ⟨[], trace, rfl, .done, h⟩
  | cons group groups ih =>
    cases h with
    | @group _ _ first later htogether hrun =>
      obtain ⟨before, after, rfl, hbefore, hafter⟩ := ih hrun
      exact ⟨first ++ before, after, (List.append_assoc _ _ _).symm,
        .group htogether hbefore, hafter⟩

/-- The events of earlier groups come before any event that is not one of theirs. -/
theorem Run.mem_before {e e' : ε} {before after : List ε}
    (h : Run events (groups ++ groups') (before ++ e :: after))
    (hlater : e ∉ groups.flatten.flatMap events) (hearlier : e' ∈ groups.flatten.flatMap events) :
    e' ∈ before := by
  obtain ⟨first, later, htrace, hfirst, -⟩ := h.split
  have he : e ∉ first := fun he => hlater (hfirst.perm.mem_iff.mp he)
  have he' : e' ∈ first := hfirst.perm.mem_iff.mpr hearlier
  obtain ⟨mid, rfl, hmid⟩ | ⟨mid, rfl, -⟩ := List.append_eq_append_iff.mp htrace
  · cases mid with
    | nil => simpa using he'
    | cons d mid =>
      obtain ⟨rfl, -⟩ := List.cons.inj hmid
      exact absurd (List.mem_append_right _ List.mem_cons_self) he
  · exact List.mem_append_left _ he'

end Run

end WalletToolbox.Lib.Waves
