import Mathlib.Algebra.Order.BigOperators.Group.List
import Mathlib.Algebra.Order.Group.Nat
import WalletToolbox.Laws.ChangeLoops
import WalletToolbox.Lib.Guarded

/-! # What change generation adds up to, in whole numbers

The source counts in 64-bit words.
While the amounts fit, the excess that the loops steer by is the difference of the sums, and what is
paid comes to what is spent.
The output that asks for everything is the exception: it is lowered by what is missing, even when
more is missing than it asked for. -/

namespace WalletToolbox.Storage

open WalletToolbox.Lib

/-! ## Exact sums -/

/-- The sum of amounts as numbers. -/
def sumNat (xs : List UInt64) : Nat :=
  (xs.map UInt64.toNat).sum

section Sums

variable {xs ys : List UInt64}

@[simp] theorem sumNat_nil : sumNat [] = 0 := rfl

@[simp] theorem sumNat_cons (x : UInt64) : sumNat (x :: xs) = x.toNat + sumNat xs := rfl

@[simp] theorem sumNat_append : sumNat (xs ++ ys) = sumNat xs + sumNat ys := by
  unfold sumNat
  rw [List.map_append, List.sum_append]

theorem sumNat_perm (h : xs.Perm ys) : sumNat xs = sumNat ys :=
  (h.map _).sum_eq

theorem sumNat_map_subperm {α : Type} {f : α → UInt64} {as bs : List α} (h : as.Subperm bs) :
    sumNat (as.map f) ≤ sumNat (bs.map f) := by
  obtain ⟨cs, hperm, hsub⟩ := h
  rw [← sumNat_perm (hperm.map f)]
  exact ((hsub.map f).map _).sum_le_sum fun _ _ => Nat.zero_le _

theorem sumU64_toNat (h : sumNat xs < 18446744073709551616) : (sumU64 xs).toNat = sumNat xs := by
  induction xs with
  | nil => rfl
  | cons x xs ih =>
    rw [sumNat_cons] at h
    have hrest := ih (by omega)
    rw [sumU64_cons, sumNat_cons, toNat_add_of_lt (by omega), hrest]

theorem sumNat_le {most : Nat} (h : ∀ x ∈ xs, x.toNat ≤ most) : sumNat xs ≤ xs.length * most := by
  induction xs with
  | nil => exact Nat.zero_le _
  | cons x xs ih =>
    have hx := h x List.mem_cons_self
    have hxs := ih fun y hy => h y (List.mem_cons_of_mem _ hy)
    rw [sumNat_cons, List.length_cons, Nat.succ_mul]
    omega

theorem sumNat_set {i : Nat} {x : UInt64} (hx : xs[i]? = some x) (v : UInt64) :
    sumNat (xs.set i v) + x.toNat = sumNat xs + v.toNat := by
  induction xs generalizing i with
  | nil => cases hx
  | cons y ys ih =>
    cases i with
    | zero =>
      obtain rfl : y = x := by simpa using hx
      simp only [List.set_cons_zero, sumNat_cons]
      omega
    | succ i =>
      have hrest := ih (i := i) (by simpa using hx)
      simp only [List.set_cons_succ, sumNat_cons]
      omega

theorem le_sumNat {x : UInt64} (h : x ∈ xs) : x.toNat ≤ sumNat xs :=
  List.le_sum_of_mem (List.mem_map_of_mem h)

end Sums

/-! ## Sizes and fees -/

section Fees

variable {args : GenerateChangeSdkArgs} {n n' m m' : Nat}

theorem varUintSize_mono (h : n ≤ n') : varUintSize n ≤ varUintSize n' := by
  unfold varUintSize
  repeat' split
  all_goals omega

theorem computeSize_eq : computeSize args n m 0 0 =
    8 + varUintSize (args.fixedInputs.length + n) + varUintSize (args.fixedOutputs.length + m) +
      (args.fixedInputs.map fun i => transactionInputSize i.unlockingScriptLength).sum +
      (args.fixedOutputs.map fun o => transactionOutputSize o.lockingScriptLength).sum +
      n * transactionInputSize args.changeUnlockingScriptLength +
      m * transactionOutputSize args.changeLockingScriptLength := by
  simp only [computeSize, transactionSize, List.length_append, List.length_map,
    List.length_replicate, List.map_append, List.map_map, List.map_replicate, List.sum_append,
    List.sum_replicate_nat, Nat.add_zero, Function.comp_def]
  omega

/-- More inputs and outputs make a larger transaction. -/
theorem computeSize_mono (hn : n ≤ n') (hm : m ≤ m') :
    computeSize args n m 0 0 ≤ computeSize args n' m' 0 0 := by
  have hinputs : varUintSize (args.fixedInputs.length + n) ≤
      varUintSize (args.fixedInputs.length + n') := varUintSize_mono (by omega)
  have houtputs : varUintSize (args.fixedOutputs.length + m) ≤
      varUintSize (args.fixedOutputs.length + m') := varUintSize_mono (by omega)
  have hin := Nat.mul_le_mul_right (transactionInputSize args.changeUnlockingScriptLength) hn
  have hout := Nat.mul_le_mul_right (transactionOutputSize args.changeLockingScriptLength) hm
  rw [computeSize_eq, computeSize_eq]
  omega

/-- The fee for a number of change inputs and change outputs: the size times the rate, per thousand
bytes and rounded up. -/
def feeNat (args : GenerateChangeSdkArgs) (n m : Nat) : Nat :=
  (computeSize args n m 0 0 * args.feeModel.value.toNat + 999) / 1000

theorem feeNat_mono (hn : n ≤ n') (hm : m ≤ m') : feeNat args n m ≤ feeNat args n' m' := by
  have hmul := Nat.mul_le_mul_right args.feeModel.value.toNat
    (@computeSize_mono args _ _ _ _ hn hm)
  unfold feeNat
  omega

theorem divCeil1000_toNat {x : UInt64} : (divCeil1000 x).toNat = (x.toNat + 999) / 1000 := by
  have hlt := x.toNat_lt
  have hmod : (x % 1000).toNat = x.toNat % 1000 := UInt64.toNat_mod _ _
  have hdiv : (x / 1000).toNat = x.toNat / 1000 := UInt64.toNat_div _ _
  have hone : (1 : UInt64).toNat = 1 := rfl
  unfold divCeil1000
  split
  · rename_i h
    have h : 0 < (x % 1000).toNat := UInt64.lt_iff_toNat_lt.mp h
    rw [toNat_add_of_lt (by omega)]
    omega
  · rename_i h
    have h : ¬0 < (x % 1000).toNat := fun hpos => h (UInt64.lt_iff_toNat_lt.mpr hpos)
    omega

theorem feeTarget_toNat
    (h : computeSize args n m 0 0 * args.feeModel.value.toNat < 18446744073709551616) :
    (feeTarget args n m 0 0).toNat = feeNat args n m := by
  unfold feeTarget feeNat
  rw [divCeil1000_toNat, UInt64.toNat_mul, UInt64.toNat_ofNat']
  congr 2
  rw [Nat.mod_mul_mod]
  exact Nat.mod_eq_of_lt h

end Fees

/-! ## Amounts that fit -/

/-- All that a pool can fund, with the fixed inputs. -/
def fundingNat (args : GenerateChangeSdkArgs) (pool : List AvailableChange) : Nat :=
  sumNat (args.fixedInputs.map (·.satoshis)) + sumNat (pool.map (·.satoshis))

/-- The most change outputs that the loops can hold at a time. -/
def mostOutputs (args : GenerateChangeSdkArgs) (pool : List AvailableChange) : Nat :=
  (args.targetNetCount.getD 0).toNat + 1 + pool.length

/-- The largest amount that a change output is created with. -/
def mostChange (args : GenerateChangeSdkArgs) : Nat :=
  max args.changeFirstSatoshis.toNat args.changeInitialSatoshis.toNat

/-- The amounts that the loops compute with fit into 64-bit words. -/
structure Fits (args : GenerateChangeSdkArgs) (pool : List AvailableChange) : Prop where
  funding : fundingNat args pool < 9223372036854775808
  size : computeSize args pool.length (mostOutputs args pool) 0 0 * args.feeModel.value.toNat <
    18446744073709551616
  spending : sumNat (args.fixedOutputs.map (·.satoshis)) +
    mostOutputs args pool * mostChange args + feeNat args pool.length (mostOutputs args pool) <
      9223372036854775808

section Amounts

variable {args : GenerateChangeSdkArgs} {pool : List AvailableChange} {removing : Bool}
  {s t : Selection}

/-- A selection whose parts are within what the pool and the arguments allow. -/
structure Selection.Within (args : GenerateChangeSdkArgs) (pool : List AvailableChange)
    (removing : Bool) (s : Selection) : Prop where
  inputs : (s.allocated ++ s.storage.usable).Subperm (pool.map inputOf)
  amounts : ∀ x ∈ s.changeOutputs, x.toNat ≤ mostChange args
  room : s.changeOutputs.length + (if removing then 0 else s.storage.usable.length) ≤
    mostOutputs args pool
  fixed : s.fixedOutputSatoshis = args.fixedOutputs.map (·.satoshis)

/-- The excess as a number. -/
def excessOf (args : GenerateChangeSdkArgs) (allocated : List AllocatedChangeInputRef)
    (changeOutputs : List UInt64) : Int :=
  (sumNat (args.fixedInputs.map (·.satoshis)) + sumNat (allocated.map (·.satoshis)) : Nat) -
    sumNat (args.fixedOutputs.map (·.satoshis)) - sumNat changeOutputs -
    feeNat args allocated.length changeOutputs.length

theorem Selection.Within.allocated_sum (h : s.Within args pool removing) :
    sumNat (s.allocated.map (·.satoshis)) ≤ sumNat (pool.map (·.satoshis)) ∧
      s.allocated.length ≤ pool.length := by
  have hsub : s.allocated.Subperm (pool.map inputOf) :=
    (List.sublist_append_left _ _).subperm.trans h.inputs
  have hsums := sumNat_map_subperm (f := (·.satoshis)) hsub
  have hlength := hsub.length_le
  rw [List.map_map] at hsums
  rw [List.length_map] at hlength
  exact ⟨hsums, hlength⟩

/-- The bounds that keep every step of the excess in range. -/
theorem Selection.Within.bounds (hfits : Fits args pool) (h : s.Within args pool removing) :
    sumNat (args.fixedInputs.map (·.satoshis)) + sumNat (s.allocated.map (·.satoshis)) ≤
      fundingNat args pool ∧
    sumNat s.changeOutputs ≤ mostOutputs args pool * mostChange args ∧
    feeNat args s.allocated.length s.changeOutputs.length ≤
      feeNat args pool.length (mostOutputs args pool) ∧
    computeSize args s.allocated.length s.changeOutputs.length 0 0 * args.feeModel.value.toNat <
      18446744073709551616 := by
  obtain ⟨hsum, hcount⟩ := h.allocated_sum
  have houtputs : s.changeOutputs.length ≤ mostOutputs args pool := by
    have hroom := h.room
    omega
  refine ⟨by unfold fundingNat; omega, ?_, feeNat_mono hcount houtputs, ?_⟩
  · exact Nat.le_trans (sumNat_le h.amounts) (Nat.mul_le_mul_right _ houtputs)
  · exact Nat.lt_of_le_of_lt (Nat.mul_le_mul_right _ (computeSize_mono hcount houtputs)) hfits.size

/-- The excess of the machine is the excess. -/
theorem feeExcess_toInt (hfits : Fits args pool) (h : s.Within args pool removing) :
    (feeExcess args s 0 0).toInt = excessOf args s.allocated s.changeOutputs := by
  obtain ⟨hfunding, hchange, hfee, hsize⟩ := h.bounds hfits
  have hlimit := hfits.funding
  have hspending := hfits.spending
  have hfundingWord : (funding args s.allocated).toNat =
      sumNat (args.fixedInputs.map (·.satoshis)) + sumNat (s.allocated.map (·.satoshis)) := by
    unfold funding
    have hfixed := @sumU64_toNat (args.fixedInputs.map (·.satoshis)) (by omega)
    have hallocated := @sumU64_toNat (s.allocated.map (·.satoshis)) (by omega)
    rw [toNat_add_of_lt (by omega), hfixed, hallocated]
  have hfixedWord : (sumU64 s.fixedOutputSatoshis).toNat =
      sumNat (args.fixedOutputs.map (·.satoshis)) := by
    rw [h.fixed]
    exact sumU64_toNat (by omega)
  have hchangeWord := @sumU64_toNat s.changeOutputs (by omega)
  have hfeeWord := feeTarget_toNat (n := s.allocated.length) (m := s.changeOutputs.length) hsize
  have hfundingInt := toInt_toInt64 (x := funding args s.allocated) (by omega)
  have hfixedInt := toInt_toInt64 (x := sumU64 s.fixedOutputSatoshis) (by omega)
  have hchangeInt := toInt_toInt64 (x := sumU64 s.changeOutputs) (by omega)
  have hfeeInt := toInt_toInt64
    (x := feeTarget args s.allocated.length s.changeOutputs.length 0 0) (by omega)
  have hfirst : ((funding args s.allocated).toInt64 - (sumU64 s.fixedOutputSatoshis).toInt64).toInt =
      (funding args s.allocated).toNat - (sumU64 s.fixedOutputSatoshis).toNat := by
    rw [toInt_sub_of_fits (by omega) (by omega), hfundingInt, hfixedInt]
  have hsecond : ((funding args s.allocated).toInt64 - (sumU64 s.fixedOutputSatoshis).toInt64 -
      (sumU64 s.changeOutputs).toInt64).toInt =
      (funding args s.allocated).toNat - (sumU64 s.fixedOutputSatoshis).toNat -
        (sumU64 s.changeOutputs).toNat := by
    rw [toInt_sub_of_fits (by omega) (by omega), hfirst, hchangeInt]
  unfold feeExcess excessOf
  rw [toInt_sub_of_fits (by omega) (by omega), hsecond, hfeeInt, hfundingWord, hfixedWord,
    hchangeWord, hfeeWord]

/-! ### The loops stay within the bounds -/

theorem nextChange_le : (nextChange args s).toNat ≤ mostChange args := by
  unfold nextChange mostChange
  split
  · exact Nat.le_max_left _ _
  · exact Nat.le_max_right _ _

theorem Selection.Within.toRemoving (h : s.Within args pool removing) : s.Within args pool true :=
  ⟨h.inputs, h.amounts, by have hroom := h.room; simp only [if_true]; omega, h.fixed⟩

theorem fundRound_within (h : s.Within args pool removing)
    (hround : fundRound args removing s = some t) : t.Within args pool removing := by
  obtain ⟨input, hperm, -, hfixed, hallocated, hadded⟩ := fundRound_some hround
  have hlength := hperm.length_eq
  rw [List.length_cons] at hlength
  have hroom := h.room
  refine ⟨?_, ?_, ?_, hfixed.trans h.fixed⟩
  · have hmoved : (t.allocated ++ t.storage.usable).Perm (s.allocated ++ s.storage.usable) := by
      rw [hallocated, List.append_assoc]
      exact hperm.symm.append_left _
    exact hmoved.subperm.trans h.inputs
  · rcases hadded with hsame | ⟨-, sats, hsats, hadded⟩
    · rw [hsame]
      exact h.amounts
    · intro x hx
      rw [hadded] at hx
      rcases List.mem_append.mp hx with hold | hnew
      · exact h.amounts x hold
      · rw [List.mem_singleton.mp hnew]
        exact Nat.le_trans (UInt64.le_iff_toNat_le.mp hsats) nextChange_le
  · rcases hadded with hsame | ⟨rfl, sats, -, hadded⟩
    · rw [hsame]
      cases removing <;> simp only [Bool.false_eq_true, if_true, if_false] at hroom ⊢ <;> omega
    · simp only [hadded, List.length_append, List.length_singleton, Bool.false_eq_true,
        if_false] at hroom ⊢
      omega

theorem fund_within (h : s.Within args pool removing) (hends : Ends (fundRound args removing) s t) :
    t.Within args pool removing :=
  hends.inv (fun _ _ h hround => fundRound_within h hround) h

/-- Fewer change outputs are within the bounds, too. -/
theorem Selection.Within.withOutputs (h : s.Within args pool removing) {outputs : List UInt64}
    (hsub : outputs.Sublist s.changeOutputs) :
    Selection.Within args pool true { s with changeOutputs := outputs } := by
  have hroom := h.room
  have hlength := hsub.length_le
  refine ⟨h.inputs, fun x hx => h.amounts x (hsub.mem hx), ?_, h.fixed⟩
  simp only [if_true]
  omega

theorem dropRound_some (h : dropRound args s = some t) :
    t = { s with changeOutputs := s.changeOutputs.dropLast } := by
  unfold dropRound at h
  split at h
  · exact (Option.some.inj h).symm
  · cases h

theorem drop_within (h : s.Within args pool removing) (hends : Ends (dropRound args) s t) :
    t.Within args pool true := by
  refine hends.inv (fun u u' hu hround => ?_) h.toRemoving
  rw [dropRound_some hround]
  exact hu.withOutputs (List.dropLast_sublist _)

theorem churn_sublist {p p' : List UInt64 × List AllocatedChangeInputRef}
    (hends : Ends churnRound p p') : p'.1.Sublist p.1 := by
  refine hends.inv (I := fun q => q.1.Sublist p.1) (fun q q' hq hround => ?_) (List.Sublist.refl _)
  unfold churnRound at hround
  dsimp only at hround
  split at hround
  · obtain ⟨i, -, rfl⟩ := Option.map_eq_some_iff.mp hround
    exact (List.dropLast_sublist _).trans hq
  · cases hround

/-- What the loops do not touch. -/
theorem fund_kept (hends : Ends (fundRound args removing) s t) :
    t.storage.inputs = s.storage.inputs ∧
      (t.allocated ++ t.storage.usable).Perm (s.allocated ++ s.storage.usable) := by
  refine hends.inv (I := fun u => u.storage.inputs = s.storage.inputs ∧
    (u.allocated ++ u.storage.usable).Perm (s.allocated ++ s.storage.usable))
    (fun u u' hu hround => ?_) ⟨rfl, .refl _⟩
  obtain ⟨input, hperm, hinputs, -, hallocated, -⟩ := fundRound_some hround
  refine ⟨hinputs.trans hu.1, ?_⟩
  rw [hallocated, List.append_assoc]
  exact (hperm.symm.append_left _).trans hu.2

theorem drop_kept (hends : Ends (dropRound args) s t) :
    t.storage = s.storage ∧ t.allocated = s.allocated := by
  refine hends.inv (I := fun u => u.storage = s.storage ∧ u.allocated = s.allocated)
    (fun u u' hu hround => ?_) ⟨rfl, rfl⟩
  rw [dropRound_some hround]
  exact hu

theorem usable_sublist {cs : List AvailableChange} : (usable cs).Sublist (cs.map inputOf) :=
  List.filter_sublist.map _

theorem ChangeStorage.usable_sublist {storage : ChangeStorage} :
    storage.usable.Sublist storage.inputs :=
  Storage.usable_sublist.append Storage.usable_sublist

theorem usable_of_all {cs : List AvailableChange} (h : ∀ c ∈ cs, c.spendable = true) :
    usable cs = cs.map inputOf := by
  unfold usable
  rw [List.filter_eq_self.mpr h]

/-- Releasing brings back no more than the pool. -/
theorem release_within (h : s.Within args pool true)
    (hinputs : s.storage.inputs.Perm (pool.map inputOf)) :
    (releaseAll s).Within args pool true := by
  refine ⟨?_, h.amounts, h.room, h.fixed⟩
  have hsub := (releaseAll s).storage.usable_sublist
  rw [releaseAll_inputs] at hsub
  exact hsub.subperm.trans hinputs.subperm

theorem starved_within (h : Starved args removing s t)
    (hreleased : (releaseAll s).Within args pool removing)
    (hinputs : s.storage.inputs.Perm (pool.map inputOf)) : t.Within args pool true := by
  induction h with
  | funded fund _ => exact (fund_within hreleased fund).toRemoving
  | unfunded fund _ drop _ => exact drop_within (fund_within hreleased fund) drop
  | again fund _ drop _ churn _ ih =>
    have hdropped := drop_within (fund_within hreleased fund) drop
    have hkept := (fund_kept fund).1.trans releaseAll_inputs
    rw [← (drop_kept drop).1] at hkept
    have hchurned := hdropped.withOutputs (churn_sublist churn)
    exact ih (release_within hchurned (hkept ▸ hinputs)) (hkept ▸ hinputs)

/-! ### A selection that falls short -/

theorem takeFirst_none {p : AvailableChange → Bool} {cs : List AvailableChange}
    (h : takeFirst p cs = none) : ∀ c ∈ cs, p c = true → c.spendable = false := by
  induction cs with
  | nil => nofun
  | cons c rest ih =>
    unfold takeFirst at h
    split at h
    · cases h
    · rename_i hnot
      simp only [Bool.and_eq_true, not_and, Bool.not_eq_true] at hnot
      intro c' hc' hp
      rcases List.mem_cons.mp hc' with rfl | hrest
      · cases hspendable : c'.spendable with
        | false => rfl
        | true => exact absurd (hnot hspendable) (by simp [hp])
      · exact ih (Option.map_eq_none_iff.mp h) c' hrest hp

theorem takeLast_none {cs : List AvailableChange} (h : takeLast cs = none) : usable cs = [] := by
  have hnone := takeFirst_none (Option.map_eq_none_iff.mp h)
  unfold usable
  rw [List.map_eq_nil_iff, List.filter_eq_nil_iff]
  intro c hc
  simp [hnone c (List.mem_reverse.mpr hc) rfl]

/-- An allocation fails only when nothing is left. -/
theorem ChangeStorage.allocate_none {storage : ChangeStorage} {target : UInt64}
    {exact : Option UInt64} (h : storage.allocate target exact = none) : storage.usable = [] := by
  unfold ChangeStorage.allocate at h
  split at h
  · cases h
  · rename_i hlast
    have hchange := (Option.or_eq_none_iff.mp (Option.map_eq_none_iff.mp h)).2
    unfold ChangeStorage.usable
    rw [takeLast_none hlast, takeLast_none hchange]
    rfl

/-- Funding that ends short has used everything up. -/
theorem fund_short (hends : Ends (fundRound args removing) s t) (hshort : feeExcess args t 0 0 < 0) :
    t.storage.usable = [] := by
  have hstops := hends.stops
  unfold fundRound at hstops
  rw [if_pos hshort] at hstops
  exact ChangeStorage.allocate_none (Option.map_eq_none_iff.mp hstops)

/-- What is dropped until enough is left is everything, when that is not enough. -/
theorem drop_short (hends : Ends (dropRound args) s t) (hshort : feeExcess args t 0 0 < 0) :
    t.changeOutputs = [] := by
  have hstops := hends.stops
  unfold dropRound at hstops
  by_contra hne
  rw [if_pos (by simp [hne, hshort])] at hstops
  cases hstops

/-- When nothing can pay for the outputs, the first round takes everything and drops every output. -/
theorem starved_low (hlow : ∀ u, Selection.Within args pool true u → feeExcess args u 0 0 < 0)
    (h : Starved args removing s t) (hreleased : (releaseAll s).Within args pool removing) :
    t.changeOutputs = [] ∧ t.allocated.Perm (releaseAll s).storage.usable := by
  have hall : ∀ f, Ends (fundRound args removing) (releaseAll s) f →
      f.allocated.Perm (releaseAll s).storage.usable := by
    intro f fund
    have hperm := (fund_kept fund).2
    rw [fund_short fund (hlow f (fund_within hreleased fund).toRemoving), List.append_nil] at hperm
    exact hperm
  cases h with
  | funded fund done =>
    have hshort := hlow t (fund_within hreleased fund).toRemoving
    refine ⟨done.resolve_left fun hpos => ?_, hall t fund⟩
    rw [neg_iff] at hshort
    rw [nonneg_iff] at hpos
    omega
  | unfunded fund _ drop still =>
    exact ⟨drop_short drop still, (drop_kept drop).2 ▸ hall _ fund⟩
  | again fund _ drop enough _ _ =>
    exact absurd (hlow _ (drop_within (fund_within hreleased fund) drop)) enough

end Amounts

/-! ## The whole selection -/

section Selected

variable {args : GenerateChangeSdkArgs} {noSendChange available : List AvailableChange}

/-- All that is available can be allocated at the start. -/
theorem withNoSendChange_usable :
    (ChangeStorage.withNoSendChange noSendChange available).usable =
      (ChangeStorage.withNoSendChange noSendChange available).inputs := by
  have hmarked : ∀ c ∈ (available.map fun c => { c with spendable := true }).insertionSort
      fun a b => changeBefore a b = true, c.spendable = true := by
    intro c hc
    obtain ⟨c', -, rfl⟩ := List.mem_map.mp ((List.perm_insertionSort _ _).mem_iff.mp hc)
    rfl
  unfold ChangeStorage.usable ChangeStorage.inputs
  rw [usable_of_all, usable_of_all]
  · exact hmarked
  · intro c hc
    obtain ⟨c', -, rfl⟩ := List.mem_map.mp hc
    rfl

theorem withNoSendChange_inputs :
    (ChangeStorage.withNoSendChange noSendChange available).inputs.Perm
      ((noSendChange ++ available).map inputOf) := by
  unfold ChangeStorage.inputs ChangeStorage.withNoSendChange
  rw [List.map_append]
  refine List.Perm.append ?_ ?_
  · rw [List.map_map]
    exact .refl _
  · refine ((List.perm_insertionSort _ _).map inputOf).trans ?_
    rw [List.map_map]
    exact .refl _

theorem wantRound_some {s t : Selection} (h : wantRound args s = some t) :
    t = { s with changeOutputs := s.changeOutputs ++ [nextChange args s] } := by
  unfold wantRound at h
  split at h
  · exact (Option.some.inj h).symm
  · cases h

/-- Nothing is allocated yet, and the outputs have their first amounts. -/
theorem wanted_start :
    (wantedSelection args noSendChange available).allocated = [] ∧
    (wantedSelection args noSendChange available).storage =
      .withNoSendChange noSendChange available ∧
    (wantedSelection args noSendChange available).fixedOutputSatoshis =
      args.fixedOutputs.map (·.satoshis) ∧
    (∀ x ∈ (wantedSelection args noSendChange available).changeOutputs,
      x.toNat ≤ mostChange args) ∧
    ∀ first ∈ (wantedSelection args noSendChange available).changeOutputs.head?,
      first = args.changeFirstSatoshis := by
  refine wanted_ends.inv (I := fun u => u.allocated = [] ∧
    u.storage = .withNoSendChange noSendChange available ∧
    u.fixedOutputSatoshis = args.fixedOutputs.map (·.satoshis) ∧
    (∀ x ∈ u.changeOutputs, x.toNat ≤ mostChange args) ∧
    ∀ first ∈ u.changeOutputs.head?, first = args.changeFirstSatoshis) ?_
    ⟨rfl, rfl, rfl, nofun, nofun⟩
  rintro u u' ⟨hallocated, hstorage, hfixed, hamounts, hfirst⟩ hround
  rw [wantRound_some hround]
  refine ⟨hallocated, hstorage, hfixed, fun x hx => ?_, fun first hhead => ?_⟩
  · rcases List.mem_append.mp hx with hold | hnew
    · exact hamounts x hold
    · rw [List.mem_singleton.mp hnew]
      exact nextChange_le
  · cases houtputs : u.changeOutputs with
    | nil =>
      simp only [houtputs, nextChange, List.nil_append, List.head?_cons, List.isEmpty_nil,
        if_true, Option.mem_some_iff] at hhead
      exact hhead.symm
    | cons x rest =>
      rw [houtputs] at hhead hfirst
      exact hfirst first hhead

theorem wanted_release :
    releaseAll (wantedSelection args noSendChange available) =
      wantedSelection args noSendChange available := by
  have hstart := (@wanted_start args noSendChange available).1
  unfold releaseAll
  rw [hstart, List.reverse_nil, List.foldl_nil, ← hstart]

theorem wanted_within :
    (wantedSelection args noSendChange available).Within args (noSendChange ++ available) false := by
  obtain ⟨hallocated, hstorage, hfixed, hamounts, -⟩ :=
    @wanted_start args noSendChange available
  have hperm := @withNoSendChange_inputs noSendChange available
  refine ⟨?_, hamounts, ?_, hfixed⟩
  · rw [hallocated, hstorage, withNoSendChange_usable]
    exact hperm.subperm
  · have hlength := @wantOutputs_length args (startSelection args noSendChange available)
      ((args.targetNetCount.getD 0).toNat + 1)
    have hstart : (startSelection args noSendChange available).changeOutputs.length = 0 := rfl
    have hcount := hperm.length_eq
    rw [hstorage, withNoSendChange_usable, hcount]
    unfold wantedSelection mostOutputs
    simp only [Bool.false_eq_true, if_false, List.length_map] at hlength ⊢
    omega

theorem selected_within :
    (selectChange args noSendChange available).Within args (noSendChange ++ available) true := by
  refine starved_within selected_starved ?_ ?_
  · rw [wanted_release]
    exact wanted_within
  · rw [wanted_start.2.1]
    exact withNoSendChange_inputs

end Selected

/-! ## Conservation -/

/-- The fixed outputs as they are paid: the one that asked for everything has its adjusted amount. -/
def paidOutputs (args : GenerateChangeSdkArgs) (g : GenerateChangeSdkResult) : List UInt64 :=
  match g.maxPossibleSatoshisAdjustment with
  | none => args.fixedOutputs.map (·.satoshis)
  | some a => (args.fixedOutputs.map (·.satoshis)).set a.fixedOutputIndex a.satoshis

/-- The inputs of a result, as a number. -/
def paidInputs (args : GenerateChangeSdkArgs) (g : GenerateChangeSdkResult) : Nat :=
  sumNat (args.fixedInputs.map (·.satoshis)) + sumNat (g.allocatedChangeInputs.map (·.satoshis))

/-- Nothing is lost or made: the inputs come to the outputs and the fee, which is that of a
transaction of this shape, and no more than the funding is given out. -/
structure Conserves (args : GenerateChangeSdkArgs) (g : GenerateChangeSdkResult) : Prop where
  balance : paidInputs args g =
    sumNat (paidOutputs args g) + sumNat g.changeOutputs + g.fee.toNat
  fee : g.fee.toNat = feeNat args g.allocatedChangeInputs.length g.changeOutputs.length
  adjusted : ∀ a, g.maxPossibleSatoshisAdjustment = some a → a.satoshis.toNat ≤ paidInputs args g

/-- The funding pays for the other outputs and the fee when the output that asks for everything gets
nothing, and every input of the pool is spent. -/
def CoversOthers (args : GenerateChangeSdkArgs) (pool : List AvailableChange) : Prop :=
  sumNat (args.fixedOutputs.map (·.satoshis)) + feeNat args pool.length 0 ≤
    fundingNat args pool + maxPossibleSatoshis.toNat

section Conserved

variable {args : GenerateChangeSdkArgs} {pool : List AvailableChange} {s : Selection}
  {g : GenerateChangeSdkResult} {adjustment : Option MaxPossibleSatoshisAdjustment}

theorem distribute_exact {excess : Int64} {outputs : List UInt64} (hexcess : 0 ≤ excess.toInt)
    (h : outputs = [] → excess = 0)
    (hfits : sumNat outputs + excess.toInt < 18446744073709551616) :
    (sumNat (distribute args 130 excess outputs) : Int) = sumNat outputs + excess.toInt := by
  have hkept := @distribute_inv args excess outputs
    (fun p => (sumNat p.2 : Int) + p.1.toInt = sumNat outputs + excess.toInt) ?_ hexcess h rfl
  · have hzero : (0 : Int64).toInt = 0 := rfl
    dsimp only at hkept
    omega
  · rintro ⟨e, os⟩ ⟨e', os'⟩ hsum hround
    obtain ⟨sats, first, rest, rfl, rfl, -, hless, hnonneg, -⟩ := distributeRound_some hround
    simp only [sumNat_cons] at hsum ⊢
    rw [toNat_add_of_lt (by omega)]
    omega

theorem finish_spec (h : finish args s adjustment = .ok g) :
    0 ≤ (feeExcess args s 0 0).toInt ∧ (s.changeOutputs = [] → feeExcess args s 0 0 = 0) ∧
      g.changeOutputs = distribute args 130 (feeExcess args s 0 0) s.changeOutputs ∧
      g.allocatedChangeInputs = s.allocated ∧
      g.fee = feeTarget args s.allocated.length g.changeOutputs.length 0 0 ∧
      g.maxPossibleSatoshisAdjustment = adjustment := by
  unfold finish at h
  dsimp only at h
  split at h
  · cases h
  · rename_i hnonneg
    split at h
    · cases h
    · rename_i hspread
      split at h
      · cases h
      · rename_i hfee
        simp only [bne_iff_ne, ne_eq, not_not] at hfee
        cases h
        rw [neg_iff] at hnonneg
        refine ⟨by omega, fun hnil => ?_, rfl, rfl, hfee, rfl⟩
        simp only [Bool.and_eq_true, decide_eq_true_eq, List.isEmpty_iff] at hspread
        have hnot : ¬feeExcess args s 0 0 > 0 := fun hpos => hspread ⟨hnil, hpos⟩
        rw [pos_iff] at hnot
        have hzero : (0 : Int64).toInt = 0 := rfl
        exact Int64.toInt_inj.mp (by omega)

/-- A selection that does not fall short is paid for. -/
theorem conserves_of_enough (hfits : Fits args pool) (hwithin : s.Within args pool true)
    (h : finish args s none = .ok g) : Conserves args g := by
  obtain ⟨hexcess, hempty, hchange, hallocated, hfee, hadjustment⟩ := finish_spec h
  obtain ⟨hfunding, hchanges, -, hsize⟩ := hwithin.bounds hfits
  have hlimit := hfits.funding
  have hspending := hfits.spending
  have hexact := feeExcess_toInt hfits hwithin
  have hlength := (@distribute_sum args _ _ hexcess hempty).1
  have hfeeNat := feeTarget_toNat hsize
  have hgiven := @distribute_exact args _ _ hexcess hempty
    (by rw [hexact]; unfold excessOf; omega)
  rw [← hchange] at hlength hgiven
  rw [hlength] at hfee
  unfold excessOf at hexact
  refine ⟨?_, ?_, fun a ha => ?_⟩
  · unfold paidInputs paidOutputs
    rw [hadjustment, hallocated, hfee, hfeeNat]
    dsimp only
    omega
  · rw [hfee, hallocated, hlength, hfeeNat]
  · rw [hadjustment] at ha
    cases ha

/-- A selection without change that falls short is paid for exactly when the output that asks for
everything can give that much. -/
theorem conserves_adjusted_iff (hfits : Fits args pool) (hwithin : s.Within args pool true)
    (hshort : feeExcess args s 0 0 < 0) (houtputs : s.changeOutputs = []) {i : Nat}
    (hmax : (args.fixedOutputs.map (·.satoshis))[i]? = some maxPossibleSatoshis) {s' : Selection}
    (h : adjustMaxPossible args (some i) s = .ok (s', adjustment))
    (hfinish : finish args s' adjustment = .ok g) :
    Conserves args g ↔
      sumNat (args.fixedOutputs.map (·.satoshis)) + feeNat args s.allocated.length 0 ≤
        sumNat (args.fixedInputs.map (·.satoshis)) + sumNat (s.allocated.map (·.satoshis)) +
          maxPossibleSatoshis.toNat := by
  obtain ⟨hfunding, -, -, hsize⟩ := hwithin.bounds hfits
  have hlimit := hfits.funding
  have hspending := hfits.spending
  have hexact := feeExcess_toInt hfits hwithin
  have hfeeNat := feeTarget_toNat hsize
  rw [houtputs] at hexact hfeeNat
  unfold excessOf at hexact
  rw [sumNat_nil, List.length_nil] at hexact
  rw [List.length_nil] at hfeeNat
  have hfewer : feeNat args s.allocated.length 0 ≤
      feeNat args pool.length (mostOutputs args pool) :=
    feeNat_mono hwithin.allocated_sum.2 (Nat.zero_le _)
  have hbig : maxPossibleSatoshis.toNat = 2099999999999999 := rfl
  rw [neg_iff] at hshort
  unfold adjustMaxPossible at h
  rw [if_pos (neg_iff.mpr hshort)] at h
  dsimp only at h
  have hold : s.fixedOutputSatoshis.getD i 0 = maxPossibleSatoshis := by
    rw [hwithin.fixed, List.getD_eq_getElem?_getD, hmax]
    rfl
  rw [hold, if_neg (by simp)] at h
  obtain ⟨rfl, rfl⟩ := Prod.mk.inj (Except.ok.inj h)
  obtain ⟨-, -, hchange, hallocated, hfee, hadjustment⟩ := finish_spec hfinish
  rw [houtputs] at hchange
  have hnone : g.changeOutputs = [] := hchange.trans rfl
  have hfeeSame : g.fee.toNat = feeNat args s.allocated.length 0 := by
    rw [hfee, hnone]
    exact hfeeNat
  have hmaxInt : maxPossibleSatoshis.toInt64.toInt = 2099999999999999 := rfl
  have hsum : (maxPossibleSatoshis.toInt64 + feeExcess args s 0 0).toInt =
      2099999999999999 + (feeExcess args s 0 0).toInt := by
    rw [toInt_add_of_fits (by omega) (by omega), hmaxInt]
  generalize hadjusted : maxPossibleSatoshis.toInt64 + feeExcess args s 0 0 = adjusted at *
  have hset := sumNat_set hmax adjusted.toUInt64
  have hmost := le_sumNat (List.mem_of_getElem? hmax)
  have hinputs : paidInputs args g = sumNat (args.fixedInputs.map (·.satoshis)) +
      sumNat (s.allocated.map (·.satoshis)) := by
    unfold paidInputs
    rw [hallocated]
  constructor
  · intro hconserves
    have hle := hconserves.adjusted _ hadjustment
    by_contra hmore
    -- a negative amount is a very large one after the cast
    have hneg : adjusted.toInt < 0 := by omega
    have hcast : adjusted.toUInt64.toNat = adjusted.toInt + 18446744073709551616 :=
      toNat_toUInt64_of_neg hneg
    dsimp only at hle
    omega
  · intro hcovers
    have hcast := toNat_toUInt64 (a := adjusted) (by omega)
    refine ⟨?_, ?_, fun a ha => ?_⟩
    · have hpaid : paidOutputs args g =
          (args.fixedOutputs.map (·.satoshis)).set i adjusted.toUInt64 := by
        unfold paidOutputs
        rw [hadjustment]
      rw [hpaid, hinputs, hnone, hfeeSame, sumNat_nil]
      omega
    · rw [hallocated, hnone]
      exact hfeeSame
    · rw [hadjustment] at ha
      cases ha
      dsimp only
      omega

/-- Nothing else adjusts: without a call for everything the selection must not fall short. -/
theorem adjustMaxPossible_none {s' : Selection}
    (h : adjustMaxPossible args none s = .ok (s', adjustment)) : s' = s ∧ adjustment = none := by
  unfold adjustMaxPossible at h
  split at h
  · obtain ⟨rfl, rfl⟩ := Prod.mk.inj (Except.ok.inj h)
    exact ⟨rfl, rfl⟩
  · obtain ⟨rfl, rfl⟩ := Prod.mk.inj (Except.ok.inj h)
    exact ⟨rfl, rfl⟩

/-- A call in which nothing asks for everything adjusts nothing and conserves value. -/
theorem generate_conserves {noSendChange available : List AvailableChange}
    (hfits : Fits args (noSendChange ++ available))
    (hmem : maxPossibleSatoshis ∉ args.fixedOutputs.map (·.satoshis))
    (h : generateChangeSdkWithNoSend args noSendChange available = .ok g) :
    Conserves args g ∧ g.maxPossibleSatoshisAdjustment = none := by
  rw [generate_eq] at h
  obtain ⟨hasMax, hvalid, h⟩ := except_bind_ok h
  obtain ⟨⟨s', adjustment⟩, hadjust, hfinish⟩ := except_bind_ok h
  dsimp only at hfinish
  have hvalidated : Validated args (.ok hasMax) := hvalid ▸ validateParams_validated
  have hwithin := @selected_within args noSendChange available
  generalize selectChange args noSendChange available = t at hadjust hwithin
  cases hasMax with
  | none =>
    obtain ⟨rfl, rfl⟩ := adjustMaxPossible_none hadjust
    exact ⟨conserves_of_enough hfits hwithin hfinish, (finish_spec hfinish).2.2.2.2.2⟩
  | some i => exact absurd (List.mem_of_getElem? (hvalidated i rfl)) hmem

/-- While the amounts fit, a call conserves value exactly when no output asks for everything or, where
the funding is below the supply of coins, the funding pays for the rest. -/
theorem change_conserved_iff (args : GenerateChangeSdkArgs)
    (noSendChange available : List AvailableChange) (g : GenerateChangeSdkResult)
    (hfits : Fits args (noSendChange ++ available))
    (hsupply : maxPossibleSatoshis ∈ args.fixedOutputs.map (·.satoshis) →
      fundingNat args (noSendChange ++ available) < maxPossibleSatoshis.toNat)
    (h : generateChangeSdkWithNoSend args noSendChange available = .ok g) :
    Conserves args g ↔ (maxPossibleSatoshis ∈ args.fixedOutputs.map (·.satoshis) →
      CoversOthers args (noSendChange ++ available)) := by
  by_cases hmem : maxPossibleSatoshis ∈ args.fixedOutputs.map (·.satoshis)
  · rw [generate_eq] at h
    obtain ⟨hasMax, hvalid, h⟩ := except_bind_ok h
    obtain ⟨⟨s', adjustment⟩, hadjust, hfinish⟩ := except_bind_ok h
    dsimp only at hfinish
    have hvalidated : Validated args (.ok hasMax) := hvalid ▸ validateParams_validated
    have hwithin := @selected_within args noSendChange available
    have hstarved := @selected_starved args noSendChange available
    generalize selectChange args noSendChange available = t at hadjust hwithin hstarved
    have hlow : ∀ u, Selection.Within args (noSendChange ++ available) true u →
        feeExcess args u 0 0 < 0 := by
      intro u hu
      have hexact := feeExcess_toInt hfits hu
      obtain ⟨hfunding, -⟩ := hu.bounds hfits
      have hmost := le_sumNat hmem
      have hless := hsupply hmem
      rw [neg_iff, hexact]
      unfold excessOf
      omega
    have hreleased : (releaseAll (wantedSelection args noSendChange available)).Within args
        (noSendChange ++ available) false := by
      rw [wanted_release]
      exact wanted_within
    obtain ⟨houtputs, hperm⟩ := starved_low hlow hstarved hreleased
    rw [wanted_release, wanted_start.2.1, withNoSendChange_usable] at hperm
    have hall := hperm.trans withNoSendChange_inputs
    have hcount : t.allocated.length = (noSendChange ++ available).length := by
      rw [hall.length_eq, List.length_map]
    have hsum : sumNat (t.allocated.map (·.satoshis)) =
        sumNat ((noSendChange ++ available).map (·.satoshis)) := by
      rw [sumNat_perm (hall.map _), List.map_map]
      rfl
    cases hasMax with
    | none =>
      obtain ⟨rfl, rfl⟩ := adjustMaxPossible_none hadjust
      have hnonneg := (finish_spec hfinish).1
      have hneg := hlow _ hwithin
      rw [neg_iff] at hneg
      omega
    | some i =>
      have hiff := conserves_adjusted_iff hfits hwithin (hlow _ hwithin) houtputs
        (hvalidated i rfl) hadjust hfinish
      rw [hcount, hsum] at hiff
      exact ⟨fun hconserves _ => hiff.mp hconserves, fun hcovers => hiff.mpr (hcovers hmem)⟩
  · exact iff_of_true (generate_conserves hfits hmem h).1 fun hmem' => absurd hmem' hmem

/-- A payment of 500 satoshis. -/
def paymentArgs : GenerateChangeSdkArgs where
  fixedInputs := []
  fixedOutputs := [⟨500, 25⟩]
  feeModel := {}
  changeInitialSatoshis := 1000
  changeFirstSatoshis := 250
  changeLockingScriptLength := 25
  changeUnlockingScriptLength := 107
  targetNetCount := none

def thousandCoin : AvailableChange := { outputId := 1, satoshis := 1000 }

theorem payment_selected :
    (generateChangeSdkWithNoSend paymentArgs [] [thousandCoin]).toOption.map
      (fun g => (g.changeOutputs, g.fee)) = some ([477], 23) := by
  decide +kernel

/-- Everything is asked for. -/
def everythingArgs : GenerateChangeSdkArgs :=
  { paymentArgs with fixedOutputs := [⟨maxPossibleSatoshis, 25⟩] }

theorem everything_selected :
    (generateChangeSdkWithNoSend everythingArgs [] [thousandCoin]).toOption.map
      (fun g => (g.maxPossibleSatoshisAdjustment.map (·.satoshis), g.fee)) = some (some 980, 20) := by
  decide +kernel

/-- A coin of 1000 pays for the output and the fee of 23; the rest is change. Where everything is asked
for, the output is lowered to what the fee of 20 leaves. -/
theorem change_conserved_payment :
    (∃ g, generateChangeSdkWithNoSend paymentArgs [] [thousandCoin] = .ok g ∧
      g.changeOutputs = [477] ∧ Conserves paymentArgs g) ∧
    ∃ g, generateChangeSdkWithNoSend everythingArgs [] [thousandCoin] = .ok g ∧
      g.maxPossibleSatoshisAdjustment.map (·.satoshis) = some 980 ∧ Conserves everythingArgs g := by
  constructor
  · obtain ⟨g, hg, hvalues⟩ := Option.map_eq_some_iff.mp payment_selected
    have hok := toOption_eq_some.mp hg
    have hsome : maxPossibleSatoshis ∉ paymentArgs.fixedOutputs.map (·.satoshis) := by decide
    exact ⟨g, hok, (Prod.mk.inj hvalues).1,
      (change_conserved_iff paymentArgs [] [thousandCoin] g ⟨by decide, by decide, by decide⟩
        (fun hmem => absurd hmem hsome) hok).mpr fun hmem => absurd hmem hsome⟩
  · obtain ⟨g, hg, hvalues⟩ := Option.map_eq_some_iff.mp everything_selected
    have hok := toOption_eq_some.mp hg
    exact ⟨g, hok, (Prod.mk.inj hvalues).1,
      (change_conserved_iff everythingArgs [] [thousandCoin] g ⟨by decide, by decide, by decide⟩
        (fun _ => by decide) hok).mpr fun _ => by unfold CoversOthers; decide⟩

/-- Everything is asked for beside an output of 1000, and there are 500. -/
def drainArgs : GenerateChangeSdkArgs :=
  { paymentArgs with
    fixedInputs := [⟨500, 107⟩]
    fixedOutputs := [⟨maxPossibleSatoshis, 25⟩, ⟨1000, 25⟩] }

theorem drain_selected :
    (generateChangeSdkWithNoSend drainArgs [] []).toOption.map
      (fun g => (g.maxPossibleSatoshisAdjustment.map (·.satoshis), g.allocatedChangeInputs)) =
        some (some 18446744073709551093, []) := by
  decide +kernel

/-- Then the output that asks for everything is lowered below nothing. -/
theorem change_not_conserved :
    ∃ g, generateChangeSdkWithNoSend drainArgs [] [] = .ok g ∧ ¬Conserves drainArgs g := by
  obtain ⟨g, hg, hvalues⟩ := Option.map_eq_some_iff.mp drain_selected
  refine ⟨g, toOption_eq_some.mp hg, fun hconserves => ?_⟩
  obtain ⟨hadjustment, hallocated⟩ := Prod.mk.inj hvalues
  obtain ⟨a, ha, hsatoshis⟩ := Option.map_eq_some_iff.mp hadjustment
  have hmost := hconserves.adjusted a ha
  unfold paidInputs at hmost
  rw [hallocated, hsatoshis] at hmost
  revert hmost
  decide

end Conserved

end WalletToolbox.Storage
