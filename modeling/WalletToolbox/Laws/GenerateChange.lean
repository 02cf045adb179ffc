import WalletToolbox.Laws.Provider
import WalletToolbox.Methods.GenerateChange

/-! # What a selection of change adds up to

The loops take inputs from the pool only and never touch the amounts of the fixed outputs.
What they select is paid for in full, or the output that asks for everything is lowered. -/

namespace WalletToolbox.Storage

/-! ## Sums of machine words -/

section Sums

variable {xs : List UInt64}

@[simp] theorem sumU64_cons (x : UInt64) : sumU64 (x :: xs) = x + sumU64 xs := by
  have hshift : ∀ a b : UInt64, xs.foldl (· + ·) (a + b) = a + xs.foldl (· + ·) b := by
    intro a b
    exact List.foldl_assoc
  unfold sumU64
  rw [List.foldl_cons, UInt64.zero_add, ← hshift, UInt64.add_zero]

theorem sumU64_set {i : Nat} (hi : i < xs.length) (v : UInt64) :
    sumU64 (xs.set i v) + xs[i] = sumU64 xs + v := by
  induction xs generalizing i with
  | nil => cases hi
  | cons x xs ih =>
    cases i with
    | zero =>
      simp only [List.set_cons_zero, sumU64_cons, List.getElem_cons_zero]
      grind
    | succ i =>
      have hrest := ih (i := i) (by simpa using hi)
      simp only [List.set_cons_succ, sumU64_cons, List.getElem_cons_succ]
      grind

end Sums

/-! ## The pool -/

/-- An entry of the pool without its mark. -/
def inputOf (c : AvailableChange) : AllocatedChangeInputRef :=
  ⟨c.outputId, c.satoshis⟩

section Pool

variable {p : AvailableChange → Bool} {cs cs' : List AvailableChange} {storage storage' : ChangeStorage}
  {input : AllocatedChangeInputRef}

theorem takeFirst_some (h : takeFirst p cs = some (input, cs')) :
    input ∈ cs.map inputOf ∧ cs'.map inputOf = cs.map inputOf := by
  induction cs generalizing cs' with
  | nil => cases h
  | cons c rest ih =>
    unfold takeFirst at h
    split at h
    · cases h
      exact ⟨List.mem_cons_self, rfl⟩
    · obtain ⟨⟨found, rest'⟩, hrest, heq⟩ := Option.map_eq_some_iff.mp h
      cases heq
      obtain ⟨hmem, hmap⟩ := ih hrest
      exact ⟨List.mem_cons_of_mem _ hmem, by rw [List.map_cons, List.map_cons, hmap]⟩

theorem takeLast_some (h : takeLast cs = some (input, cs')) :
    input ∈ cs.map inputOf ∧ cs'.map inputOf = cs.map inputOf := by
  obtain ⟨⟨found, rest⟩, hfirst, heq⟩ := Option.map_eq_some_iff.mp h
  cases heq
  obtain ⟨hmem, hmap⟩ := takeFirst_some hfirst
  rw [List.map_reverse] at hmem hmap
  exact ⟨List.mem_reverse.mp hmem, by rw [List.map_reverse, hmap, List.reverse_reverse]⟩

theorem putBack_some {id : Nat} (h : putBack id cs = some cs') :
    cs'.map inputOf = cs.map inputOf := by
  induction cs generalizing cs' with
  | nil => cases h
  | cons c rest ih =>
    unfold putBack at h
    split at h
    · cases h
      rfl
    · obtain ⟨rest', hrest, rfl⟩ := Option.map_eq_some_iff.mp h
      rw [List.map_cons, List.map_cons, ih hrest]

/-- What can be allocated, whether or not it is at the moment. -/
def ChangeStorage.inputs (storage : ChangeStorage) : List AllocatedChangeInputRef :=
  storage.noSendChange.map inputOf ++ storage.change.map inputOf

theorem ChangeStorage.allocate_some {target : UInt64} {exact : Option UInt64}
    (h : storage.allocate target exact = some (input, storage')) :
    input ∈ storage.inputs ∧ storage'.inputs = storage.inputs := by
  unfold ChangeStorage.allocate at h
  split at h
  · rename_i found rest hlast
    cases h
    obtain ⟨hmem, hmap⟩ := takeLast_some hlast
    exact ⟨List.mem_append_left _ hmem, by simp only [inputs, hmap]⟩
  · obtain ⟨⟨found, rest⟩, hfound, heq⟩ := Option.map_eq_some_iff.mp h
    cases heq
    have htaken : found ∈ storage.change.map inputOf ∧
        rest.map inputOf = storage.change.map inputOf := by
      rcases Option.or_eq_some_iff.mp hfound with hfirst | ⟨-, hlast⟩
      · rcases Option.or_eq_some_iff.mp hfirst with hexact | ⟨-, hcover⟩
        · cases exact with
          | none => cases hexact
          | some amount => exact takeFirst_some hexact
        · exact takeFirst_some hcover
      · exact takeLast_some hlast
    exact ⟨List.mem_append_right _ htaken.1, by simp only [inputs, htaken.2]⟩

theorem ChangeStorage.release_inputs (id : Nat) : (storage.release id).inputs = storage.inputs := by
  unfold ChangeStorage.release
  split
  · rename_i hput
    simp only [inputs, putBack_some hput]
  · split
    · rename_i hput
      simp only [inputs, putBack_some hput]
    · rfl

end Pool

/-! ## The loops -/

section Loops

variable {args : GenerateChangeSdkArgs} {pool : List AllocatedChangeInputRef} {fixed : List UInt64}
  {s : Selection}

/-- The selection is out of the pool, and the fixed outputs have the given amounts. -/
structure Selection.From (pool : List AllocatedChangeInputRef) (fixed : List UInt64)
    (s : Selection) : Prop where
  storage : s.storage.inputs = pool
  allocated : ∀ a ∈ s.allocated, a ∈ pool
  fixedOutputs : s.fixedOutputSatoshis = fixed

theorem Selection.From.withOutputs (h : s.From pool fixed) (changeOutputs : List UInt64) :
    Selection.From pool fixed { s with changeOutputs } :=
  ⟨h.storage, h.allocated, h.fixedOutputs⟩

theorem wantOutputs_from {bound : Nat} (h : s.From pool fixed) :
    (wantOutputs args bound s).From pool fixed := by
  induction bound generalizing s with
  | zero => exact h
  | succ bound ih =>
    unfold wantOutputs
    split
    · exact ih (h.withOutputs _)
    · exact h

/-- Releasing changes marks only. -/
theorem releaseAll_inputs : (releaseAll s).storage.inputs = s.storage.inputs := by
  have hreleased : ∀ (inputs : List AllocatedChangeInputRef) (storage : ChangeStorage),
      (inputs.foldl (fun st i => st.release i.outputId) storage).inputs = storage.inputs := by
    intro inputs
    induction inputs with
    | nil => exact fun _ => rfl
    | cons i rest ih => exact fun storage => (ih _).trans (ChangeStorage.release_inputs _)
  exact hreleased _ _

theorem releaseAll_from (h : s.From pool fixed) : (releaseAll s).From pool fixed :=
  ⟨releaseAll_inputs.trans h.storage, nofun, h.fixedOutputs⟩

theorem fund_from {removing : Bool} {bound : Nat} (h : s.From pool fixed) :
    (fund args removing bound s).From pool fixed := by
  induction bound generalizing s with
  | zero => exact h
  | succ bound ih =>
    unfold fund
    split
    · dsimp only
      split
      · exact h
      · rename_i input storage hallocate
        obtain ⟨hmem, hsame⟩ := ChangeStorage.allocate_some hallocate
        have hnext : Selection.From pool fixed
            { s with storage, allocated := s.allocated ++ [input] } := by
          refine ⟨hsame.trans h.storage, fun a ha => ?_, h.fixedOutputs⟩
          rcases List.mem_append.mp ha with hold | hnew
          · exact h.allocated a hold
          · rw [List.mem_singleton.mp hnew, ← h.storage]
            exact hmem
        split
        · exact ih (hnext.withOutputs _)
        · exact ih hnext
    · exact h

theorem dropOutputs_from {bound : Nat} (h : s.From pool fixed) :
    (dropOutputs args bound s).From pool fixed := by
  induction bound generalizing s with
  | zero => exact h
  | succ bound ih =>
    unfold dropOutputs
    split
    · exact ih (h.withOutputs _)
    · exact h

theorem starve_from {size bound : Nat} {removing : Bool} (h : s.From pool fixed) :
    (starve args size bound removing s).From pool fixed := by
  induction bound generalizing removing s with
  | zero => exact h
  | succ bound ih =>
    have hfunded : (fund args removing (size + 1) (releaseAll s)).From pool fixed :=
      fund_from (releaseAll_from h)
    unfold starve
    dsimp only
    split
    · exact hfunded
    · split
      · exact dropOutputs_from hfunded
      · exact ih ((dropOutputs_from hfunded).withOutputs _)

/-- What the loops select, before the output that asks for everything is looked at. -/
def selectChange (args : GenerateChangeSdkArgs) (noSendChange available : List AvailableChange) :
    Selection :=
  let pool := noSendChange.length + available.length
  let wanted := (args.targetNetCount.getD 0).toNat
  starve args pool (wanted + pool + 2) false
    (wantOutputs args (wanted + 1)
      { storage := .withNoSendChange noSendChange available, allocated := [], changeOutputs := []
        fixedOutputSatoshis := args.fixedOutputs.map (·.satoshis) })

/-- The selected inputs do not pay for the fixed outputs, the change and the fee. -/
def falls (args : GenerateChangeSdkArgs) (noSendChange available : List AvailableChange) : Bool :=
  feeExcess args (selectChange args noSendChange available) 0 0 < 0

variable {noSendChange available : List AvailableChange} {g : GenerateChangeSdkResult}
  {adjustment : Option MaxPossibleSatoshisAdjustment}

theorem selectChange_from :
    (selectChange args noSendChange available).From
      (ChangeStorage.withNoSendChange noSendChange available).inputs
      (args.fixedOutputs.map (·.satoshis)) :=
  starve_from (wantOutputs_from ⟨rfl, nofun, rfl⟩)

/-- The pool holds what is available, and nothing else. -/
theorem mem_withNoSendChange {a : AllocatedChangeInputRef}
    (h : a ∈ (ChangeStorage.withNoSendChange noSendChange available).inputs) :
    ∃ c ∈ available ++ noSendChange, a = inputOf c := by
  rcases List.mem_append.mp h with hns | hpool
  · obtain ⟨marked, hmarked, rfl⟩ := List.mem_map.mp hns
    obtain ⟨c, hc, rfl⟩ := List.mem_map.mp hmarked
    exact ⟨c, List.mem_append_right _ hc, rfl⟩
  · obtain ⟨marked, hmarked, rfl⟩ := List.mem_map.mp hpool
    obtain ⟨c, hc, rfl⟩ := List.mem_map.mp ((List.perm_insertionSort _ _).mem_iff.mp hmarked)
    exact ⟨c, List.mem_append_left _ hc, rfl⟩

/-! ## What is paid -/

/-- The amount that the outputs and the fee come to. -/
def spent (args : GenerateChangeSdkArgs) (fixed : List UInt64) (g : GenerateChangeSdkResult) : UInt64 :=
  sumU64 fixed + sumU64 g.changeOutputs +
    feeTarget args g.allocatedChangeInputs.length g.changeOutputs.length 0 0

theorem finish_ok (h : finish args s adjustment = .ok g) :
    g.allocatedChangeInputs = s.allocated ∧
      funding args s.allocated = spent args s.fixedOutputSatoshis g := by
  unfold finish at h
  dsimp only at h
  split at h
  · cases h
  · split at h
    · cases h
    · split at h
      · cases h
      · rename_i hfee
        simp only [bne_iff_ne, ne_eq, not_not] at hfee
        cases h
        refine ⟨rfl, ?_⟩
        simp only [spent, ← hfee]
        grind

/-- Lowering the output by what is missing changes the sum by as much. -/
theorem adjustMaxPossible_short {hasMax : Option Nat} {s' : Selection}
    (hshort : feeExcess args s 0 0 < 0)
    (h : adjustMaxPossible args hasMax s = .ok (s', adjustment))
    (hfinish : finish args s' adjustment = .ok g) :
    s'.allocated = s.allocated ∧ sumU64 s'.fixedOutputSatoshis ≠ sumU64 s.fixedOutputSatoshis := by
  unfold adjustMaxPossible at h
  rw [if_pos hshort] at h
  cases hasMax with
  | none =>
    cases h
    unfold finish at hfinish
    dsimp only at hfinish
    rw [if_pos hshort] at hfinish
    cases hfinish
  | some idx =>
    dsimp only at h
    split at h
    · cases h
    · rename_i hold
      simp only [bne_iff_ne, ne_eq, not_not] at hold
      cases h
      refine ⟨rfl, fun hsame => ?_⟩
      have hidx : idx < s.fixedOutputSatoshis.length := by
        by_contra hout
        rw [List.getD_eq_getElem?_getD, List.getElem?_eq_none (Nat.le_of_not_lt hout)] at hold
        exact absurd hold (by decide)
      have hget : s.fixedOutputSatoshis.getD idx 0 = s.fixedOutputSatoshis[idx] := by
        simp [hidx]
      have hset := sumU64_set hidx
        (((s.fixedOutputSatoshis.getD idx 0).toInt64 + feeExcess args s 0 0).toUInt64)
      rw [hsame, hget, Int64.toUInt64_add, UInt64.toUInt64_toInt64] at hset
      have hzero : (feeExcess args s 0 0).toUInt64 = 0 := by grind
      have hexcess : feeExcess args s 0 0 = 0 := by
        rw [← Int64.toInt64_toUInt64 (feeExcess args s 0 0), hzero]
        rfl
      rw [hexcess] at hshort
      exact absurd hshort (by decide)

/-- The inputs of a plan come to its outputs and the fee exactly when the selection did not fall
short. -/
theorem generate_paid_iff (h : generateChangeSdkWithNoSend args noSendChange available = .ok g) :
    g.allocatedChangeInputs = (selectChange args noSendChange available).allocated ∧
      (funding args g.allocatedChangeInputs = spent args (args.fixedOutputs.map (·.satoshis)) g ↔
        falls args noSendChange available = false) := by
  obtain ⟨hasMax, -, h⟩ := except_bind_ok h
  obtain ⟨⟨s, adjustment⟩, hadjust, hfinish⟩ := except_bind_ok h
  change adjustMaxPossible args hasMax (selectChange args noSendChange available) = _ at hadjust
  dsimp only at hfinish
  obtain ⟨hallocated, hpaid⟩ := finish_ok hfinish
  have hfixed : (selectChange args noSendChange available).fixedOutputSatoshis =
      args.fixedOutputs.map (·.satoshis) := selectChange_from.fixedOutputs
  by_cases hshort : feeExcess args (selectChange args noSendChange available) 0 0 < 0
  · obtain ⟨hsame, hother⟩ := adjustMaxPossible_short hshort hadjust hfinish
    rw [hfixed] at hother
    rw [hallocated, hpaid, hsame]
    refine ⟨rfl, iff_of_false (fun heq => hother ?_) (by simp [falls, hshort])⟩
    simp only [spent] at heq
    grind
  · unfold adjustMaxPossible at hadjust
    rw [if_neg hshort] at hadjust
    have hsame := (Prod.mk.inj (Except.ok.inj hadjust)).1
    rw [hallocated, hpaid, ← hsame, hfixed]
    exact ⟨rfl, iff_of_true rfl (by simp [falls, hshort])⟩

end Loops

end WalletToolbox.Storage
