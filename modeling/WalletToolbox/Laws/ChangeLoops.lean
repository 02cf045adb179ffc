import Mathlib.Data.Nat.Log
import WalletToolbox.Lib.Loop
import WalletToolbox.Lib.Word
import WalletToolbox.Laws.GenerateChange

/-! # The loops of change generation

Each loop of the source is stated without a bound: what one round does, and where the loop stops.
The bounded loops of the model run them to their ends, whatever the amounts are, and the fee check
at the end never fails. -/

namespace WalletToolbox.Storage

open WalletToolbox.Lib

/-! ## What can still be allocated -/

/-- The entries of a list that are in use. -/
def usable (cs : List AvailableChange) : List AllocatedChangeInputRef :=
  (cs.filter (·.spendable)).map inputOf

/-- The inputs that can be allocated at the moment. -/
def ChangeStorage.usable (storage : ChangeStorage) : List AllocatedChangeInputRef :=
  Storage.usable storage.noSendChange ++ Storage.usable storage.change

section Usable

variable {p : AvailableChange → Bool} {cs cs' : List AvailableChange}
  {storage storage' : ChangeStorage} {input : AllocatedChangeInputRef}

theorem usable_length_le : (usable cs).length ≤ cs.length := by
  unfold usable
  rw [List.length_map]
  exact List.length_filter_le _ _

theorem usable_reverse : usable cs.reverse = (usable cs).reverse := by
  unfold usable
  rw [List.filter_reverse, List.map_reverse]

theorem takeFirst_usable (h : takeFirst p cs = some (input, cs')) :
    (usable cs).Perm (input :: usable cs') := by
  induction cs generalizing cs' with
  | nil => cases h
  | cons c rest ih =>
    unfold takeFirst at h
    split at h
    · rename_i htake
      simp only [Bool.and_eq_true] at htake
      cases h
      simp [usable, htake.1, inputOf]
    · obtain ⟨⟨found, rest'⟩, hrest, heq⟩ := Option.map_eq_some_iff.mp h
      cases heq
      have hperm := ih hrest
      cases hc : c.spendable with
      | false => simpa [usable, hc] using hperm
      | true =>
        have hcons : ∀ cs : List AvailableChange, usable (c :: cs) = inputOf c :: usable cs := by
          intro cs
          simp [usable, hc]
        rw [hcons, hcons]
        exact (hperm.cons _).trans (.swap _ _ _)

theorem takeLast_usable (h : takeLast cs = some (input, cs')) :
    (usable cs).Perm (input :: usable cs') := by
  obtain ⟨⟨found, rest⟩, hfirst, heq⟩ := Option.map_eq_some_iff.mp h
  cases heq
  have hperm := takeFirst_usable hfirst
  rw [usable_reverse] at hperm
  rw [usable_reverse]
  exact ((usable cs).reverse_perm.symm.trans hperm).trans ((List.reverse_perm _).symm.cons _)

/-- An allocation takes one input away. -/
theorem ChangeStorage.allocate_usable {target : UInt64} {exact : Option UInt64}
    (h : storage.allocate target exact = some (input, storage')) :
    storage.usable.Perm (input :: storage'.usable) := by
  unfold ChangeStorage.allocate at h
  split at h
  · rename_i found rest hlast
    cases h
    exact (takeLast_usable hlast).append_right _
  · obtain ⟨⟨found, rest⟩, hfound, heq⟩ := Option.map_eq_some_iff.mp h
    cases heq
    have htaken : (Storage.usable storage.change).Perm (found :: Storage.usable rest) := by
      rcases Option.or_eq_some_iff.mp hfound with hfirst | ⟨-, hlast⟩
      · rcases Option.or_eq_some_iff.mp hfirst with hexact | ⟨-, hcover⟩
        · cases exact with
          | none => cases hexact
          | some amount => exact takeFirst_usable hexact
        · exact takeFirst_usable hcover
      · exact takeLast_usable hlast
    exact (htaken.append_left _).trans List.perm_middle

theorem ChangeStorage.usable_length_le : storage.usable.length ≤ storage.inputs.length := by
  have h := @Storage.usable_length_le storage.noSendChange
  have h' := @Storage.usable_length_le storage.change
  simp only [ChangeStorage.usable, ChangeStorage.inputs, List.length_append, List.length_map]
  omega

end Usable

/-! ## One round of each loop -/

section Rounds

variable (args : GenerateChangeSdkArgs)

/-- A round of the loop that creates the change outputs wanted. -/
def wantRound (s : Selection) : Option Selection :=
  if args.targetNetCount.any (netChangeCount s < ·) ||
      (s.changeOutputs.isEmpty && feeExcess args s 0 0 > 0) then
    some { s with changeOutputs := s.changeOutputs ++ [nextChange args s] }
  else
    none

/-- The change output that a new input brings with it, if any. -/
def withOutput (removing addOutput : Bool) (s : Selection) : Selection :=
  if !removing && feeExcess args s 0 0 > 0 && (addOutput || s.changeOutputs.isEmpty) then
    { s with changeOutputs :=
        s.changeOutputs ++ [min (feeExcess args s 0 0).toUInt64 (nextChange args s)] }
  else
    s

/-- A round of the inner funding loop; it breaks off when nothing is left to allocate. -/
def fundRound (removing : Bool) (s : Selection) : Option Selection :=
  if feeExcess args s 0 0 < 0 then
    (s.storage.allocate (targetSatoshis args s (shouldAddOutput args s))
      (exactSatoshis args s)).map fun r =>
        withOutput args removing (shouldAddOutput args s)
          { s with storage := r.2, allocated := s.allocated ++ [r.1] }
  else
    none

/-- A round of the loop that drops change outputs. -/
def dropRound (s : Selection) : Option Selection :=
  if !s.changeOutputs.isEmpty && feeExcess args s 0 0 < 0 then
    some { s with changeOutputs := s.changeOutputs.dropLast }
  else
    none

/-- A round of the loop that drops outputs which one input would fund alone. -/
def churnRound : List UInt64 × List AllocatedChangeInputRef →
    Option (List UInt64 × List AllocatedChangeInputRef)
  | (outputs, inputs) =>
    if inputs.length > 1 && outputs.length > 1 then
      (inputs.findIdx? fun i => i.satoshis ≤ outputs.getLastD 0).map fun i =>
        (outputs.dropLast, inputs.eraseIdx i)
    else
      none

/-- The starvation loop: each inner loop runs until it stops by itself. -/
inductive Starved : Bool → Selection → Selection → Prop
  | funded {removing : Bool} {s t : Selection}
      (fund : Ends (fundRound args removing) (releaseAll s) t)
      (done : feeExcess args t 0 0 ≥ 0 ∨ t.changeOutputs = []) : Starved removing s t
  | unfunded {removing : Bool} {s f t : Selection}
      (fund : Ends (fundRound args removing) (releaseAll s) f)
      (short : ¬feeExcess args f 0 0 ≥ 0 ∧ f.changeOutputs ≠ [])
      (drop : Ends (dropRound args) f t) (still : feeExcess args t 0 0 < 0) : Starved removing s t
  | again {removing : Bool} {s f d t : Selection}
      {churned : List UInt64 × List AllocatedChangeInputRef}
      (fund : Ends (fundRound args removing) (releaseAll s) f)
      (short : ¬feeExcess args f 0 0 ≥ 0 ∧ f.changeOutputs ≠ [])
      (drop : Ends (dropRound args) f d) (enough : ¬feeExcess args d 0 0 < 0)
      (churn : Ends churnRound (d.changeOutputs, d.allocated) churned)
      (rest : Starved true { d with changeOutputs := churned.1 } t) : Starved removing s t

/-- A round of the loop that gives the excess to the first output. -/
def distributeRound : Int64 × List UInt64 → Option (Int64 × List UInt64)
  | (_, []) => none
  | (excess, first :: rest) =>
    if excess > 0 then
      if rest.isEmpty then some (0, [first + excess.toUInt64])
      else
        let sats :=
          if first < args.changeInitialSatoshis then
            min excess.toUInt64 (args.changeInitialSatoshis - first)
          else
            max 1 (excess.toUInt64 / 2)
        some (excess - sats.toInt64, (first + sats) :: rest)
    else
      none

end Rounds

/-! ## The ends -/

section Ending

variable {args : GenerateChangeSdkArgs} {s t : Selection} {bound : Nat}

theorem wantOutputs_follow : wantOutputs args bound s = follow (wantRound args) bound s := by
  induction bound generalizing s with
  | zero => rfl
  | succ bound ih =>
    unfold wantOutputs follow wantRound
    split
    · exact ih
    · rfl

/-- How many change outputs are still wanted. -/
def outputsWanted (args : GenerateChangeSdkArgs) (s : Selection) : Nat :=
  ((args.targetNetCount.getD 0) - netChangeCount s).toNat + if s.changeOutputs.isEmpty then 1 else 0

theorem wantOutputs_ends (h : outputsWanted args s ≤ bound) :
    Ends (wantRound args) s (wantOutputs args bound s) := by
  rw [wantOutputs_follow]
  refine ends_follow (outputsWanted args) (fun s s' hround => ?_) h
  unfold wantRound at hround
  split at hround
  · rename_i hwanted
    cases hround
    simp only [Bool.or_eq_true, Bool.and_eq_true] at hwanted
    have hcount : netChangeCount { s with changeOutputs := s.changeOutputs ++ [nextChange args s] } =
        netChangeCount s + 1 := by
      simp only [netChangeCount, List.length_append, List.length_singleton]
      omega
    simp only [outputsWanted, hcount]
    rcases hwanted with htarget | ⟨hempty, -⟩
    · cases hnet : args.targetNetCount with
      | none => simp [hnet] at htarget
      | some target =>
        simp only [hnet, Option.any_some, decide_eq_true_eq] at htarget
        simp
        omega
    · simp [hempty]
      omega
  · cases hround

theorem wantOutputs_length :
    (wantOutputs args bound s).changeOutputs.length ≤ s.changeOutputs.length + bound := by
  induction bound generalizing s with
  | zero => exact Nat.le_refl _
  | succ bound ih =>
    unfold wantOutputs
    split
    · refine Nat.le_trans ih ?_
      simp only [List.length_append, List.length_singleton]
      omega
    · omega

theorem fund_follow {removing : Bool} :
    fund args removing bound s = follow (fundRound args removing) bound s := by
  induction bound generalizing s with
  | zero => rfl
  | succ bound ih =>
    unfold fund follow fundRound
    split
    · dsimp only
      cases s.storage.allocate (targetSatoshis args s (shouldAddOutput args s))
          (exactSatoshis args s) with
      | none => rfl
      | some r =>
        simp only [Option.map_some, withOutput]
        split
        · exact ih
        · exact ih
    · rfl

/-- A funding round takes one input and adds at most one output, none once outputs were removed. -/
theorem fundRound_some {removing : Bool} (h : fundRound args removing s = some t) :
    ∃ input, s.storage.usable.Perm (input :: t.storage.usable) ∧
      t.storage.inputs = s.storage.inputs ∧ t.fixedOutputSatoshis = s.fixedOutputSatoshis ∧
      t.allocated = s.allocated ++ [input] ∧
      (t.changeOutputs = s.changeOutputs ∨
        removing = false ∧ ∃ sats, sats ≤ nextChange args s ∧
          t.changeOutputs = s.changeOutputs ++ [sats]) := by
  unfold fundRound at h
  split at h
  · obtain ⟨⟨input, storage⟩, hallocate, rfl⟩ := Option.map_eq_some_iff.mp h
    have husable := ChangeStorage.allocate_usable hallocate
    have hinputs := (ChangeStorage.allocate_some hallocate).2
    refine ⟨input, ?_⟩
    unfold withOutput
    split
    · rename_i hadd
      simp only [Bool.and_eq_true, Bool.not_eq_true'] at hadd
      refine ⟨husable, hinputs, rfl, rfl, .inr ⟨hadd.1.1, _, ?_, rfl⟩⟩
      rw [UInt64.le_iff_toNat_le, toNat_min]
      exact Nat.min_le_right _ _
    · exact ⟨husable, hinputs, rfl, rfl, .inl rfl⟩
  · cases h

theorem fund_ends {removing : Bool} (h : s.storage.usable.length ≤ bound) :
    Ends (fundRound args removing) s (fund args removing bound s) := by
  rw [fund_follow]
  refine ends_follow (fun s => s.storage.usable.length) (fun s s' hround => ?_) h
  obtain ⟨input, hperm, -⟩ := fundRound_some hround
  have hlength := hperm.length_eq
  rw [List.length_cons] at hlength
  omega

theorem dropOutputs_ends (h : s.changeOutputs.length ≤ bound) :
    Ends (dropRound args) s (dropOutputs args bound s) := by
  have hfollow : dropOutputs args bound s = follow (dropRound args) bound s := by
    clear h
    induction bound generalizing s with
    | zero => rfl
    | succ bound ih =>
      unfold dropOutputs follow dropRound
      split
      · exact ih
      · rfl
  rw [hfollow]
  refine ends_follow (fun s => s.changeOutputs.length) (fun s s' hround => ?_) h
  unfold dropRound at hround
  split at hround
  · rename_i hdrop
    cases hround
    simp only [Bool.and_eq_true, Bool.not_eq_true', List.isEmpty_eq_false_iff] at hdrop
    have hpos := List.length_pos_iff.mpr hdrop.1
    simp only [List.length_dropLast]
    omega
  · cases hround

theorem dropChurn_ends (outputs : List UInt64) (inputs : List AllocatedChangeInputRef) :
    ∃ inputs', Ends churnRound (outputs, inputs) (dropChurn outputs.length outputs inputs, inputs') := by
  have hfollow : ∀ bound outputs inputs,
      (follow churnRound bound (outputs, inputs)).1 = dropChurn bound outputs inputs := by
    intro bound
    induction bound with
    | zero => exact fun _ _ => rfl
    | succ bound ih =>
      intro outputs inputs
      unfold dropChurn
      by_cases hmany : (decide (inputs.length > 1) && decide (outputs.length > 1)) = true
      · rw [if_pos hmany]
        cases hfound : inputs.findIdx? fun i => i.satoshis ≤ outputs.getLastD 0 with
        | none => rw [follow_none (by simp only [churnRound, if_pos hmany, hfound, Option.map_none])]
        | some i =>
          rw [follow_some (by simp only [churnRound, if_pos hmany, hfound, Option.map_some]; rfl)]
          exact ih _ _
      · rw [if_neg hmany, follow_none (by simp only [churnRound, if_neg hmany])]
  have hends : Ends churnRound (outputs, inputs)
      (follow churnRound outputs.length (outputs, inputs)) := by
    refine ends_follow (fun p => p.1.length) ?_ (Nat.le_refl _)
    rintro ⟨outputs, inputs⟩ ⟨outputs', inputs'⟩ hround
    simp only [churnRound] at hround
    split at hround
    · rename_i hmany
      simp only [Bool.and_eq_true, decide_eq_true_eq] at hmany
      obtain ⟨i, -, heq⟩ := Option.map_eq_some_iff.mp hround
      cases heq
      simp only [List.length_dropLast]
      omega
    · cases hround
  refine ⟨(follow churnRound outputs.length (outputs, inputs)).2, ?_⟩
  rw [← hfollow]
  exact hends

/-- Funding adds at most one output for each input, and none once outputs were removed. -/
theorem fund_outputs {removing : Bool} (h : Ends (fundRound args removing) s t) :
    t.changeOutputs.length ≤
      s.changeOutputs.length + if removing then 0 else s.storage.usable.length := by
  have hkept := h.inv (I := fun u => u.changeOutputs.length +
      (if removing then 0 else u.storage.usable.length) ≤
    s.changeOutputs.length + if removing then 0 else s.storage.usable.length)
    (fun u u' hu hround => ?_) (Nat.le_refl _)
  · omega
  · obtain ⟨input, hperm, -, -, -, hsame | ⟨rfl, sats, -, hadded⟩⟩ := fundRound_some hround
    · have hlength := hperm.length_eq
      rw [List.length_cons] at hlength
      rw [hsame]
      cases removing <;> simp only [Bool.false_eq_true, if_true, if_false] at hu ⊢ <;> omega
    · have hlength := hperm.length_eq
      rw [List.length_cons] at hlength
      simp only [hadded, List.length_append, List.length_singleton, Bool.false_eq_true,
        if_false] at hu ⊢
      omega

theorem drop_outputs (h : Ends (dropRound args) s t) :
    t.changeOutputs.length ≤ s.changeOutputs.length := by
  refine h.inv (I := fun u => u.changeOutputs.length ≤ s.changeOutputs.length)
    (fun u u' hu hround => ?_) (Nat.le_refl _)
  unfold dropRound at hround
  split at hround
  · cases hround
    simp only [List.length_dropLast]
    omega
  · cases hround

/-- A selection that falls short loses an output. -/
theorem drop_outputs_lt (h : Ends (dropRound args) s t)
    (hshort : ¬feeExcess args s 0 0 ≥ 0 ∧ s.changeOutputs ≠ []) :
    t.changeOutputs.length < s.changeOutputs.length := by
  have hround : dropRound args s = some { s with changeOutputs := s.changeOutputs.dropLast } := by
    unfold dropRound
    rw [if_pos]
    simpa [Int64.not_le] using And.intro hshort.2 hshort.1
  have hless := drop_outputs (h.of_round hround)
  have hpos := List.length_pos_iff.mpr hshort.2
  simp only [List.length_dropLast] at hless
  omega

theorem dropChurn_length {bound : Nat} {outputs : List UInt64}
    {inputs : List AllocatedChangeInputRef} :
    (dropChurn bound outputs inputs).length ≤ outputs.length := by
  induction bound generalizing outputs inputs with
  | zero => exact Nat.le_refl _
  | succ bound ih =>
    unfold dropChurn
    split
    · split
      · exact Nat.le_refl _
      · refine Nat.le_trans ih ?_
        simp
    · exact Nat.le_refl _

/-- The starvation loop ends: after its first round every round drops an output. -/
theorem starve_ends {pool : List AllocatedChangeInputRef} {fixed : List UInt64} {size : Nat}
    {removing : Bool} (hfrom : s.From pool fixed) (hsize : pool.length ≤ size)
    (h : s.changeOutputs.length + (if removing then 0 else size) < bound) :
    Starved args removing s (starve args size bound removing s) := by
  induction bound generalizing removing s with
  | zero => omega
  | succ bound ih =>
    have hreleased := releaseAll_from hfrom
    have husable : (releaseAll s).storage.usable.length ≤ size := by
      have hle := (releaseAll s).storage.usable_length_le
      rw [hreleased.storage] at hle
      omega
    have hfund : Ends (fundRound args removing) (releaseAll s)
        (fund args removing (size + 1) (releaseAll s)) := fund_ends (by omega)
    have hfunded : (fund args removing (size + 1) (releaseAll s)).From pool fixed :=
      fund_from hreleased
    have houtputs := fund_outputs hfund
    unfold starve
    generalize fund args removing (size + 1) (releaseAll s) = f at *
    dsimp only
    split
    · rename_i hdone
      refine .funded hfund ?_
      simpa using hdone
    · rename_i hshort
      have hshort : ¬feeExcess args f 0 0 ≥ 0 ∧ f.changeOutputs ≠ [] := by simpa using hshort
      have hdrop : Ends (dropRound args) f (dropOutputs args (f.changeOutputs.length + 1) f) :=
        dropOutputs_ends (by omega)
      have hless := drop_outputs_lt hdrop hshort
      split
      · rename_i hstill
        exact .unfunded hfund hshort hdrop hstill
      · rename_i henough
        obtain ⟨inputs, hchurn⟩ := dropChurn_ends
          (dropOutputs args (f.changeOutputs.length + 1) f).changeOutputs
          (dropOutputs args (f.changeOutputs.length + 1) f).allocated
        refine .again hfund hshort hdrop henough hchurn (ih ?_ ?_)
        · exact (dropOutputs_from hfunded).withOutputs _
        · have hchurned := @dropChurn_length
            (dropOutputs args (f.changeOutputs.length + 1) f).changeOutputs.length
            (dropOutputs args (f.changeOutputs.length + 1) f).changeOutputs
            (dropOutputs args (f.changeOutputs.length + 1) f).allocated
          have hkept : (releaseAll s).changeOutputs = s.changeOutputs := rfl
          rw [hkept] at houtputs
          cases removing <;> simp only [Bool.false_eq_true, if_true, if_false] at h houtputs ⊢ <;>
            omega

end Ending

/-! ## The excess -/

section Excess

variable {args : GenerateChangeSdkArgs} {excess excess' : Int64} {outputs outputs' : List UInt64}

/-- How many rounds an excess takes at most: each half of it may be followed by a round that fills
the first output up. -/
def roundsLeft (args : GenerateChangeSdkArgs) (p : Int64 × List UInt64) : Nat :=
  2 * (if p.1.toInt ≤ 0 then 0 else 1 + Nat.clog 2 p.1.toInt.toNat) +
    if p.2.headD 0 < args.changeInitialSatoshis then 1 else 0

theorem roundsLeft_le (p : Int64 × List UInt64) : roundsLeft args p ≤ 129 := by
  have hbound := (toInt_bounds (a := p.1)).2
  have hclog : Nat.clog 2 p.1.toInt.toNat ≤ 63 := by
    refine Nat.clog_le_of_le_pow ?_
    omega
  unfold roundsLeft
  split <;> split <;> omega

/-- Half of an excess leaves one binary digit less. -/
theorem clog_half {e : Nat} (h : 2 ≤ e) : Nat.clog 2 (e - e / 2) + 1 = Nat.clog 2 e := by
  rw [Nat.clog_of_two_le (by omega) h]
  congr 2
  omega

/-- A round moves a part of the excess to the first output. -/
theorem distributeRound_some (h : distributeRound args (excess, outputs) = some (excess', outputs')) :
    ∃ sats first rest, outputs = first :: rest ∧ outputs' = (first + sats) :: rest ∧
      excess' = excess - sats.toInt64 ∧ excess'.toInt = excess.toInt - sats.toNat ∧
      0 ≤ excess'.toInt ∧ roundsLeft args (excess', outputs') < roundsLeft args (excess, outputs) := by
  have hnone : ∀ outputs, roundsLeft args (0, outputs) ≤ 1 := by
    intro outputs
    have hzero : (0 : Int64).toInt ≤ 0 := by decide
    unfold roundsLeft
    rw [if_pos hzero]
    split <;> omega
  have hsome : 0 < excess.toInt →
      roundsLeft args (excess, outputs) = 2 * (1 + Nat.clog 2 excess.toInt.toNat) +
        if outputs.headD 0 < args.changeInitialSatoshis then 1 else 0 := by
    intro hpos
    have hnot : ¬excess.toInt ≤ 0 := by omega
    unfold roundsLeft
    rw [if_neg hnot]
  match outputs with
  | [] => cases h
  | first :: rest =>
    unfold distributeRound at h
    dsimp only at h
    split at h
    · rename_i hpos
      rw [gt_iff_lt, Int64.lt_iff_toInt_lt] at hpos
      have hpos : 0 < excess.toInt := hpos
      have hword := toNat_toUInt64 (Int.le_of_lt hpos)
      have hbounds := toInt_bounds (a := excess)
      specialize hsome hpos
      split at h
      · -- the last output takes all
        rename_i hrest
        obtain rfl : rest = [] := by simpa using hrest
        cases h
        refine ⟨excess.toUInt64, first, [], rfl, rfl, ?_, ?_, by decide, ?_⟩
        · rw [Int64.toInt64_toUInt64, Int64.sub_self]
        · change 0 = _
          omega
        · have hless := hnone [first + excess.toUInt64]
          omega
      · obtain ⟨rfl, rfl⟩ := Prod.mk.inj (Option.some.inj h)
        have hkept : ∀ sats : UInt64, (sats.toNat : Int) ≤ excess.toInt →
            (excess - sats.toInt64).toInt = excess.toInt - sats.toNat := by
          intro sats hle
          have hsats := toInt_toInt64 (x := sats) (by omega)
          rw [toInt_sub_of_fits (by omega) (by omega), hsats]
        split at hsome
        · -- the first output is filled up to the initial amount
          rename_i hfirst
          have hfirst : first < args.changeInitialSatoshis := hfirst
          rw [if_pos hfirst]
          have hfill : (args.changeInitialSatoshis - first).toNat =
              args.changeInitialSatoshis.toNat - first.toNat :=
            toNat_sub_of_le (by have := UInt64.lt_iff_toNat_lt.mp hfirst; omega)
          have hmin : (min excess.toUInt64 (args.changeInitialSatoshis - first)).toNat =
              min excess.toUInt64.toNat (args.changeInitialSatoshis - first).toNat := toNat_min
          generalize min excess.toUInt64 (args.changeInitialSatoshis - first) = sats at hmin ⊢
          have hleft := hkept sats (by omega)
          refine ⟨sats, first, rest, rfl, rfl, rfl, hleft, by omega, ?_⟩
          rw [hsome]
          unfold roundsLeft
          rw [hleft]
          have hmono : Nat.clog 2 (excess.toInt - sats.toNat).toNat ≤ Nat.clog 2 excess.toInt.toNat :=
            Nat.clog_mono_right 2 (by omega)
          split
          · split <;> omega
          · rename_i hmore
            have hfull : ¬first + sats < args.changeInitialSatoshis := by
              rw [UInt64.lt_iff_toNat_lt] at hfirst ⊢
              rw [toNat_add_of_lt (by have := args.changeInitialSatoshis.toNat_lt; omega)]
              omega
            have hhead : ((first + sats) :: rest).headD 0 = first + sats := rfl
            rw [hhead, if_neg hfull]
            omega
        · -- half of the excess goes
          rename_i hfirst
          have hfirst : ¬first < args.changeInitialSatoshis := hfirst
          rw [if_neg hfirst]
          have hmax : (max 1 (excess.toUInt64 / 2)).toNat = max 1 (excess.toUInt64.toNat / 2) := by
            rw [toNat_max, UInt64.toNat_div]
            rfl
          generalize max 1 (excess.toUInt64 / 2) = sats at hmax ⊢
          have hleft := hkept sats (by omega)
          refine ⟨sats, first, rest, rfl, rfl, rfl, hleft, by omega, ?_⟩
          rw [hsome]
          unfold roundsLeft
          rw [hleft]
          split
          · split <;> omega
          · rename_i hmore
            have hhalf : (excess.toInt - sats.toNat).toNat =
                excess.toInt.toNat - excess.toInt.toNat / 2 := by omega
            have hclog := clog_half (e := excess.toInt.toNat) (by omega)
            rw [hhalf]
            split <;> omega
    · cases h

theorem distribute_follow {bound : Nat} :
    (follow (distributeRound args) bound (excess, outputs)).2 =
      distribute args bound excess outputs := by
  induction bound generalizing excess outputs with
  | zero => rfl
  | succ bound ih =>
    unfold distribute
    match outputs with
    | [] => rw [follow_none rfl]
    | first :: rest =>
      dsimp only
      split
      · rename_i hpos
        split
        · rename_i hrest
          have hround : distributeRound args (excess, first :: rest) =
              some (0, [first + excess.toUInt64]) := by
            simp only [distributeRound, if_pos hpos, if_pos hrest]
          have hstop : distributeRound args (0, [first + excess.toUInt64]) = none := by
            simp only [distributeRound, if_neg (show ¬(0 : Int64) > 0 by decide)]
          rw [follow_some hround, follow_none hstop]
        · rename_i hrest
          refine Eq.trans ?_ ih
          rw [follow_some]
          simp only [distributeRound, if_pos hpos, if_neg hrest]
      · rename_i hpos
        have hstop : distributeRound args (excess, first :: rest) = none := by
          simp only [distributeRound, if_neg hpos]
        rw [follow_none hstop]

/-- The distribution loop ends. -/
theorem distribute_ends (excess : Int64) (outputs : List UInt64) :
    ∃ left, Ends (distributeRound args) (excess, outputs)
      (left, distribute args 130 excess outputs) := by
  have hends : Ends (distributeRound args) (excess, outputs)
      (follow (distributeRound args) 130 (excess, outputs)) := by
    refine ends_follow (roundsLeft args) ?_ (Nat.le_trans (roundsLeft_le _) (by omega))
    rintro ⟨e, os⟩ ⟨e', os'⟩ hround
    obtain ⟨_, _, _, -, -, -, -, -, hless⟩ := distributeRound_some hround
    exact hless
  refine ⟨(follow (distributeRound args) 130 (excess, outputs)).1, ?_⟩
  rw [← distribute_follow]
  exact hends

/-- What every round keeps holds when nothing is left. -/
theorem distribute_inv {I : Int64 × List UInt64 → Prop}
    (hround : ∀ p p', I p → distributeRound args p = some p' → I p') (hexcess : 0 ≤ excess.toInt)
    (hempty : outputs = [] → excess = 0) (h : I (excess, outputs)) :
    I (0, distribute args 130 excess outputs) := by
  obtain ⟨left, hends⟩ := @distribute_ends args excess outputs
  have hkept := hends.inv (I := fun p => I p ∧ 0 ≤ p.1.toInt ∧ (p.2 = [] → p.1 = 0)) ?_
    ⟨h, hexcess, hempty⟩
  · obtain ⟨hdone, hleft, hempty⟩ := hkept
    have hzero : left = 0 := by
      have hstops := hends.stops
      cases hgiven : distribute args 130 excess outputs with
      | nil => exact hempty hgiven
      | cons first rest =>
        rw [hgiven] at hstops
        unfold distributeRound at hstops
        dsimp only at hstops
        split at hstops
        · split at hstops <;> cases hstops
        · rename_i hpos
          rw [pos_iff] at hpos
          exact Int64.toInt_inj.mp (by change left.toInt = 0; dsimp only at hleft; omega)
    exact hzero ▸ hdone
  · rintro ⟨e, os⟩ ⟨e', os'⟩ ⟨hold, -, -⟩ hnext
    obtain ⟨sats, first, rest, rfl, rfl, -, -, hnonneg, -⟩ := distributeRound_some hnext
    exact ⟨hround _ _ hold hnext, hnonneg, nofun⟩

/-- All of the excess is given away, to the outputs that are there. -/
theorem distribute_sum (hexcess : 0 ≤ excess.toInt) (h : outputs = [] → excess = 0) :
    (distribute args 130 excess outputs).length = outputs.length ∧
      sumU64 (distribute args 130 excess outputs) = sumU64 outputs + excess.toUInt64 := by
  have hkept := @distribute_inv args excess outputs (fun p =>
    p.2.length = outputs.length ∧ sumU64 p.2 + p.1.toUInt64 = sumU64 outputs + excess.toUInt64)
    ?_ hexcess h ⟨rfl, rfl⟩
  · refine ⟨hkept.1, ?_⟩
    rw [← hkept.2]
    exact (UInt64.add_zero _).symm
  · rintro ⟨e, os⟩ ⟨e', os'⟩ ⟨hlength, hsum⟩ hround
    obtain ⟨sats, first, rest, rfl, rfl, rfl, -, -, -⟩ := distributeRound_some hround
    refine ⟨hlength, hsum ▸ ?_⟩
    simp only [sumU64_cons, Int64.toUInt64_sub, UInt64.toUInt64_toInt64]
    grind

end Excess

/-! ## The result -/

section Result

variable {args : GenerateChangeSdkArgs} {s : Selection} {noSendChange available : List AvailableChange}
  {adjustment : Option MaxPossibleSatoshisAdjustment}

/-- The fee that is left over is the fee that was aimed at. -/
theorem finish_not_internal (message : String) :
    finish args s adjustment ≠ .error (.internal message) := by
  intro h
  unfold finish at h
  dsimp only at h
  split at h
  · cases h
  · rename_i hnonneg
    split at h
    · cases h
    · rename_i hspread
      simp only [Bool.and_eq_true, decide_eq_true_eq, List.isEmpty_iff] at hspread
      have hexcess : 0 ≤ (feeExcess args s 0 0).toInt := by
        rw [Int64.lt_iff_toInt_lt] at hnonneg
        have hzero : ((0 : Int64).toInt) = 0 := rfl
        omega
      have hempty : s.changeOutputs = [] → feeExcess args s 0 0 = 0 := by
        intro hnil
        have hnot : ¬feeExcess args s 0 0 > 0 := fun hpos => hspread ⟨hnil, hpos⟩
        rw [gt_iff_lt, Int64.lt_iff_toInt_lt] at hnot
        have hzero : ((0 : Int64).toInt) = 0 := rfl
        exact Int64.toInt_inj.mp (by omega)
      obtain ⟨hlength, hsum⟩ := @distribute_sum args _ _ hexcess hempty
      split at h
      · rename_i hfee
        simp only [bne_iff_ne, ne_eq] at hfee
        refine hfee ?_
        rw [hsum, hlength]
        simp only [feeExcess, Int64.toUInt64_sub, UInt64.toUInt64_toInt64]
        grind
      · cases h

/-- What validation gives: the index of an output that asks for everything, if there is one, or an
error that names a parameter. -/
def Validated (args : GenerateChangeSdkArgs) : Except WalletError (Option Nat) → Prop
  | .ok hasMax => ∀ i, hasMax = some i →
      (args.fixedOutputs.map (·.satoshis))[i]? = some maxPossibleSatoshis
  | .error e => ∃ parameter mustBe, e = .invalidParameter parameter mustBe

theorem validateParams_validated : Validated args (validateParams args) := by
  unfold validateParams
  split
  · exact ⟨_, _, rfl⟩
  · have hitems : ∀ x ∈ args.fixedOutputs.zipIdx, args.fixedOutputs[x.2]? = some x.1 :=
      fun x hx => List.mk_mem_zipIdx_iff_getElem?.mp hx
    have hfound : Validated args (.ok none) := nofun
    generalize args.fixedOutputs.zipIdx = items at hitems
    generalize (none : Option Nat) = found at hfound
    induction items generalizing found with
    | nil => exact hfound
    | cons x items ih =>
      have hrest := fun y hy => hitems y (List.mem_cons_of_mem _ hy)
      obtain ⟨o, j⟩ := x
      rw [List.foldlM_cons]
      by_cases hmax : (o.satoshis == maxPossibleSatoshis) = true
      · simp only [if_pos hmax]
        by_cases hsecond : found.isSome = true
        · simp only [if_pos hsecond]
          exact ⟨_, _, rfl⟩
        · simp only [if_neg hsecond]
          refine ih hrest (some j) fun i hi => ?_
          cases hi
          rw [List.getElem?_map, hitems (o, j) List.mem_cons_self]
          exact congrArg some (beq_iff_eq.mp hmax)
      · simp only [if_neg hmax]
        exact ih hrest found hfound

/-- The output that asks for everything still asks for it when it is adjusted. -/
theorem adjustMaxPossible_not_internal {hasMax : Option Nat} (message : String)
    (hfixed : s.fixedOutputSatoshis = args.fixedOutputs.map (·.satoshis))
    (hmax : validateParams args = .ok hasMax) :
    adjustMaxPossible args hasMax s ≠ .error (.internal message) := by
  intro h
  unfold adjustMaxPossible at h
  split at h
  · cases hasMax with
    | none => cases h
    | some i =>
      have hvalid : Validated args (.ok (some i)) := hmax ▸ validateParams_validated
      have hget := hvalid i rfl
      dsimp only at h
      rw [hfixed, List.getD_eq_getElem?_getD, hget] at h
      simp at h
  · cases h

theorem generate_eq : generateChangeSdkWithNoSend args noSendChange available = (do
    let hasMax ← validateParams args
    let (s, adjustment) ← adjustMaxPossible args hasMax (selectChange args noSendChange available)
    finish args s adjustment) :=
  rfl

theorem except_bind_error {ε α β : Type} {x : Except ε α} {f : α → Except ε β} {e : ε}
    (h : (x >>= f) = .error e) : x = .error e ∨ ∃ a, x = .ok a ∧ f a = .error e := by
  cases x with
  | error e' =>
    cases h
    exact .inl rfl
  | ok a => exact .inr ⟨a, rfl, h⟩

/-- The state that change generation starts from. -/
def startSelection (args : GenerateChangeSdkArgs) (noSendChange available : List AvailableChange) :
    Selection where
  storage := .withNoSendChange noSendChange available
  allocated := []
  changeOutputs := []
  fixedOutputSatoshis := args.fixedOutputs.map (·.satoshis)

/-- The selection that the starvation loop starts from. -/
def wantedSelection (args : GenerateChangeSdkArgs) (noSendChange available : List AvailableChange) :
    Selection :=
  wantOutputs args ((args.targetNetCount.getD 0).toNat + 1)
    (startSelection args noSendChange available)

theorem wanted_ends :
    Ends (wantRound args) (startSelection args noSendChange available)
      (wantedSelection args noSendChange available) := by
  refine wantOutputs_ends ?_
  simp only [outputsWanted, netChangeCount, startSelection, List.length_nil, List.isEmpty_nil,
    if_true]
  omega

theorem selected_starved :
    Starved args false (wantedSelection args noSendChange available)
      (selectChange args noSendChange available) := by
  have hfrom : (startSelection args noSendChange available).From
      (ChangeStorage.withNoSendChange noSendChange available).inputs
      (args.fixedOutputs.map (·.satoshis)) := ⟨rfl, nofun, rfl⟩
  refine starve_ends (wantOutputs_from hfrom) ?_ ?_
  · simp [ChangeStorage.inputs, ChangeStorage.withNoSendChange]
  · have hlength := @wantOutputs_length args (startSelection args noSendChange available)
      ((args.targetNetCount.getD 0).toNat + 1)
    have hstart : (startSelection args noSendChange available).changeOutputs.length = 0 := rfl
    simp only [Bool.false_eq_true, if_false, wantedSelection]
    omega

/-- Every loop ends by itself, for all arguments and every pool, and no internal error is returned. -/
theorem change_loops_end (args : GenerateChangeSdkArgs) (noSendChange available : List AvailableChange) :
    (generateChangeSdkWithNoSend args noSendChange available = do
      let hasMax ← validateParams args
      let (s, adjustment) ← adjustMaxPossible args hasMax (selectChange args noSendChange available)
      finish args s adjustment) ∧
    (∃ wanted, Ends (wantRound args) (startSelection args noSendChange available) wanted ∧
      Starved args false wanted (selectChange args noSendChange available)) ∧
    (∀ excess outputs, ∃ left, Ends (distributeRound args) (excess, outputs)
      (left, distribute args 130 excess outputs)) ∧
    ∀ message, generateChangeSdkWithNoSend args noSendChange available ≠
      .error (.internal message) := by
  refine ⟨generate_eq, ⟨_, wanted_ends, selected_starved⟩,
    fun excess outputs => distribute_ends excess outputs, fun message h => ?_⟩
  rw [generate_eq] at h
  rcases except_bind_error h with hmax | ⟨hasMax, hmax, h⟩
  · have hvalid : Validated args (.error (.internal message)) := hmax ▸ validateParams_validated
    obtain ⟨_, _, heq⟩ := hvalid
    cases heq
  · rcases except_bind_error h with hadjust | ⟨p, -, h⟩
    · exact adjustMaxPossible_not_internal message selectChange_from.fixedOutputs hmax hadjust
    · exact finish_not_internal message h

end Result

end WalletToolbox.Storage
