import WalletToolbox.Laws.ChangeAmounts

/-! # When change generation finds the funds

The selection is greedy, and an input is never given back alone: a coin that is worth less than the
fee for spending it stays in.
So a part of the pool that pays is no guarantee, and the whole pool is: it is what the loops have when
they run out. -/

namespace WalletToolbox.Storage

open WalletToolbox.Lib

/-! ## What is released -/

section Release

variable {p : AvailableChange → Bool} {cs cs' : List AvailableChange}
  {storage storage' : ChangeStorage} {input : AllocatedChangeInputRef} {ids : List Nat}

/-- What is out of use can be put back by the ids. -/
def Covered (ids : List Nat) (cs : List AvailableChange) : Prop :=
  ∀ c ∈ cs, c.spendable = true ∨ c.outputId ∈ ids

def ChangeStorage.Covered (ids : List Nat) (storage : ChangeStorage) : Prop :=
  Storage.Covered ids (storage.noSendChange ++ storage.change)

theorem Covered.mono {ids' : List Nat} (h : Covered ids cs) (hsub : ∀ i ∈ ids, i ∈ ids') :
    Covered ids' cs :=
  fun c hc => (h c hc).imp_right (hsub _)

theorem takeFirst_covered (hcovered : Covered ids cs) (h : takeFirst p cs = some (input, cs')) :
    Covered (ids ++ [input.outputId]) cs' := by
  induction cs generalizing cs' with
  | nil => cases h
  | cons c rest ih =>
    have hrest := fun c' hc' => hcovered c' (List.mem_cons_of_mem _ hc')
    unfold takeFirst at h
    split at h
    · cases h
      intro c' hc'
      rcases List.mem_cons.mp hc' with rfl | hin
      · exact .inr (List.mem_append_right _ (List.mem_singleton.mpr rfl))
      · exact (hrest c' hin).imp_right (List.mem_append_left _)
    · obtain ⟨⟨found, rest'⟩, hfound, heq⟩ := Option.map_eq_some_iff.mp h
      cases heq
      intro c' hc'
      rcases List.mem_cons.mp hc' with rfl | hin
      · exact (hcovered c' List.mem_cons_self).imp_right (List.mem_append_left _)
      · exact ih hrest hfound c' hin

theorem takeLast_covered (hcovered : Covered ids cs) (h : takeLast cs = some (input, cs')) :
    Covered (ids ++ [input.outputId]) cs' := by
  obtain ⟨⟨found, rest⟩, hfirst, heq⟩ := Option.map_eq_some_iff.mp h
  cases heq
  have hreverse : Covered ids cs.reverse := fun c hc => hcovered c (List.mem_reverse.mp hc)
  exact fun c hc => takeFirst_covered hreverse hfirst c (List.mem_reverse.mp hc)

theorem covered_append {cs ds : List AvailableChange} :
    Covered ids (cs ++ ds) ↔ Covered ids cs ∧ Covered ids ds :=
  List.forall_mem_append

/-- An allocation can be undone by the id of its input. -/
theorem ChangeStorage.allocate_covered {target : UInt64} {exact : Option UInt64}
    (hcovered : storage.Covered ids)
    (h : storage.allocate target exact = some (input, storage')) :
    storage'.Covered (ids ++ [input.outputId]) := by
  obtain ⟨hnoSend, hchange⟩ := covered_append.mp hcovered
  have hmore : ∀ i ∈ ids, i ∈ ids ++ [input.outputId] := fun i hi => List.mem_append_left _ hi
  unfold ChangeStorage.allocate at h
  split at h
  · rename_i found rest hlast
    cases h
    exact covered_append.mpr ⟨takeLast_covered hnoSend hlast, hchange.mono hmore⟩
  · obtain ⟨⟨found, rest⟩, hfound, heq⟩ := Option.map_eq_some_iff.mp h
    cases heq
    refine covered_append.mpr ⟨hnoSend.mono hmore, ?_⟩
    rcases Option.or_eq_some_iff.mp hfound with hfirst | ⟨-, hlast⟩
    · rcases Option.or_eq_some_iff.mp hfirst with hexact | ⟨-, hcover⟩
      · cases exact with
        | none => cases hexact
        | some amount => exact takeFirst_covered hchange hexact
      · exact takeFirst_covered hchange hcover
    · exact takeLast_covered hchange hlast

theorem putBack_none {id : Nat} (h : putBack id cs = none) : ∀ c ∈ cs, c.outputId ≠ id := by
  induction cs with
  | nil => nofun
  | cons c rest ih =>
    unfold putBack at h
    split at h
    · cases h
    · rename_i hne
      intro c' hc'
      rcases List.mem_cons.mp hc' with rfl | hin
      · exact hne
      · exact ih (Option.map_eq_none_iff.mp h) c' hin

/-- Where the ids are different, the entry put back is the only one with its id. -/
theorem putBack_covered {id : Nat} (hnodup : (cs.map (·.outputId)).Nodup)
    (hcovered : Covered (id :: ids) cs) (h : putBack id cs = some cs') :
    Covered ids cs' ∧ ∃ c ∈ cs, c.outputId = id := by
  induction cs generalizing cs' with
  | nil => cases h
  | cons c rest ih =>
    rw [List.map_cons, List.nodup_cons] at hnodup
    have hrest : Covered (id :: ids) rest := fun c' hc' => hcovered c' (List.mem_cons_of_mem _ hc')
    unfold putBack at h
    split at h
    · rename_i hid
      cases h
      refine ⟨fun c' hc' => ?_, c, List.mem_cons_self, hid⟩
      rcases List.mem_cons.mp hc' with rfl | hin
      · exact .inl rfl
      · refine (hrest c' hin).imp_right fun hmem => ?_
        rcases List.mem_cons.mp hmem with hsame | hmem
        · exact absurd (List.mem_map.mpr ⟨c', hin, hsame.trans hid.symm⟩) hnodup.1
        · exact hmem
    · rename_i hne
      obtain ⟨rest', hput, rfl⟩ := Option.map_eq_some_iff.mp h
      obtain ⟨hcovered', c₀, hc₀, hid⟩ := ih hnodup.2 hrest hput
      refine ⟨fun c' hc' => ?_, c₀, List.mem_cons_of_mem _ hc₀, hid⟩
      rcases List.mem_cons.mp hc' with rfl | hin
      · exact (hcovered c' List.mem_cons_self).imp_right fun hmem =>
          (List.mem_cons.mp hmem).resolve_left hne
      · exact hcovered' c' hin

theorem Covered.drop {id : Nat} (h : Covered (id :: ids) cs) (hne : ∀ c ∈ cs, c.outputId ≠ id) :
    Covered ids cs :=
  fun c hc => (h c hc).imp_right fun hmem => (List.mem_cons.mp hmem).resolve_left (hne c hc)

/-- The ids that a storage knows. -/
def ChangeStorage.outputIds (storage : ChangeStorage) : List Nat :=
  storage.inputs.map (·.outputId)

theorem outputIds_eq : storage.outputIds =
    storage.noSendChange.map (·.outputId) ++ storage.change.map (·.outputId) := by
  unfold ChangeStorage.outputIds ChangeStorage.inputs
  rw [List.map_append, List.map_map, List.map_map]
  rfl

theorem release_covered {id : Nat} (hnodup : storage.outputIds.Nodup)
    (hcovered : storage.Covered (id :: ids)) : (storage.release id).Covered ids := by
  obtain ⟨hnoSend, hchange⟩ := covered_append.mp hcovered
  rw [outputIds_eq] at hnodup
  obtain ⟨hleft, hright, hapart⟩ := List.nodup_append'.mp hnodup
  unfold ChangeStorage.release
  split
  · rename_i found hput
    obtain ⟨hkept, c, hc, hid⟩ := putBack_covered hleft hnoSend hput
    refine covered_append.mpr ⟨hkept, hchange.drop fun c' hc' hsame => ?_⟩
    exact hapart (List.mem_map.mpr ⟨c, hc, hid⟩) (List.mem_map.mpr ⟨c', hc', hsame⟩)
  · rename_i hnone
    have hkept := hnoSend.drop (putBack_none hnone)
    split
    · rename_i found hput
      exact covered_append.mpr ⟨hkept, (putBack_covered hright hchange hput).1⟩
    · rename_i hnone'
      exact covered_append.mpr ⟨hkept, hchange.drop (putBack_none hnone')⟩

theorem releaseAll_covered {s : Selection} (hnodup : s.storage.outputIds.Nodup)
    (hcovered : s.storage.Covered (s.allocated.map (·.outputId))) :
    (releaseAll s).storage.Covered [] := by
  have hreleased : ∀ (inputs : List AllocatedChangeInputRef) (storage : ChangeStorage),
      storage.outputIds.Nodup → storage.Covered (inputs.map (·.outputId)) →
      (inputs.foldl (fun st i => st.release i.outputId) storage).Covered [] := by
    intro inputs
    induction inputs with
    | nil => exact fun _ _ h => h
    | cons i rest ih =>
      intro storage hnodup hcovered
      refine ih _ ?_ (release_covered hnodup hcovered)
      unfold ChangeStorage.outputIds
      rw [ChangeStorage.release_inputs]
      exact hnodup
  refine hreleased s.allocated.reverse s.storage hnodup (hcovered.mono fun i hi => ?_)
  rw [List.map_reverse]
  exact List.mem_reverse.mpr hi

/-- When everything is released, all of the pool can be allocated. -/
theorem usable_of_covered (h : storage.Covered []) : storage.usable = storage.inputs := by
  obtain ⟨hnoSend, hchange⟩ := covered_append.mp h
  have hall : ∀ {cs : List AvailableChange}, Covered [] cs → usable cs = cs.map inputOf := fun h =>
    usable_of_all fun c hc => (h c hc).resolve_right List.not_mem_nil
  exact congrArg₂ (· ++ ·) (hall hnoSend) (hall hchange)

end Release

/-! ## The loops of a pool that pays -/

/-- Some inputs of the pool, with the fixed inputs, pay for the fixed outputs, the first change output
and the fee of that transaction. -/
def Pays (args : GenerateChangeSdkArgs) (inputs : List AvailableChange) : Prop :=
  sumNat (args.fixedOutputs.map (·.satoshis)) + args.changeFirstSatoshis.toNat +
    feeNat args inputs.length 1 ≤ fundingNat args inputs

/-- What the rounds of the loops keep: the change starts with at most the first amount, and it is
missing only while nothing is left over for it. -/
structure Steady (args : GenerateChangeSdkArgs) (pool : List AvailableChange) (removing : Bool)
    (s : Selection) : Prop where
  within : s.Within args pool removing
  inputs : s.storage.inputs.Perm (pool.map inputOf)
  covered : s.storage.Covered (s.allocated.map (·.outputId))
  all : (s.allocated ++ s.storage.usable).Perm (pool.map inputOf)
  first : ∀ x ∈ s.changeOutputs.head?, x.toNat ≤ args.changeFirstSatoshis.toNat
  given : s.changeOutputs = [] → removing = false ∧ ¬feeExcess args s 0 0 > 0

section Loops

variable {args : GenerateChangeSdkArgs} {pool : List AvailableChange} {removing : Bool}
  {s t : Selection}

theorem fundRound_steady (h : Steady args pool removing s)
    (hround : fundRound args removing s = some t) : Steady args pool removing t := by
  obtain ⟨input, hperm, hinputs, -, hallocated, hadded⟩ := fundRound_some hround
  refine ⟨fundRound_within h.within hround, hinputs ▸ h.inputs, ?_, ?_, ?_, ?_⟩
  · unfold fundRound at hround
    split at hround
    · obtain ⟨⟨found, storage⟩, hallocate, rfl⟩ := Option.map_eq_some_iff.mp hround
      have hcovered := ChangeStorage.allocate_covered h.covered hallocate
      unfold withOutput
      split
      all_goals
        rw [List.map_append]
        exact hcovered
    · cases hround
  · rw [hallocated, List.append_assoc]
    exact (hperm.symm.append_left _).trans h.all
  · intro x hx
    rcases hadded with hsame | ⟨-, sats, hsats, hadded⟩
    · exact h.first x (hsame ▸ hx)
    · rw [hadded] at hx
      cases houtputs : s.changeOutputs with
      | nil =>
        rw [houtputs, List.nil_append, List.head?_cons, Option.mem_some_iff] at hx
        rw [nextChange, houtputs, List.isEmpty_nil, if_pos rfl] at hsats
        exact hx ▸ UInt64.le_iff_toNat_le.mp hsats
      | cons y rest =>
        rw [houtputs, List.cons_append] at hx
        exact h.first x (houtputs ▸ hx)
  · intro hnil
    have hsame : s.changeOutputs = [] := by
      rcases hadded with hsame | ⟨-, sats, -, hadded⟩
      · rw [← hsame, hnil]
      · rw [hadded] at hnil
        simp at hnil
    obtain ⟨rfl, -⟩ := h.given hsame
    refine ⟨rfl, ?_⟩
    unfold fundRound at hround
    split at hround
    · obtain ⟨⟨found, storage⟩, -, rfl⟩ := Option.map_eq_some_iff.mp hround
      unfold withOutput at hnil ⊢
      split at hnil
      · simp at hnil
      · rename_i hnone
        rw [if_neg hnone]
        simp only [Bool.not_false, Bool.true_and, Bool.and_eq_true, decide_eq_true_eq,
          Bool.or_eq_true, List.isEmpty_iff, not_and, not_or] at hnone
        exact fun hpos => (hnone hpos).2 hnil
    · cases hround

theorem fund_steady (h : Steady args pool removing s) (hends : Ends (fundRound args removing) s t) :
    Steady args pool removing t :=
  hends.inv (fun _ _ h hround => fundRound_steady h hround) h

/-- With the whole pool spent, at most the first change output is paid for. -/
theorem excess_of_all (hfits : Fits args pool) (hpays : Pays args pool)
    (hwithin : s.Within args pool removing) (hall : s.allocated.Perm (pool.map inputOf))
    (hfirst : s.changeOutputs = [] ∨
      ∃ x, s.changeOutputs = [x] ∧ x.toNat ≤ args.changeFirstSatoshis.toNat) :
    0 ≤ (feeExcess args s 0 0).toInt := by
  have hcount : s.allocated.length = pool.length := by rw [hall.length_eq, List.length_map]
  have hsum : sumNat (s.allocated.map (·.satoshis)) = sumNat (pool.map (·.satoshis)) := by
    rw [sumNat_perm (hall.map _), List.map_map]
    rfl
  rw [feeExcess_toInt hfits hwithin]
  unfold excessOf
  rw [hcount, hsum]
  unfold Pays fundingNat at hpays
  rcases hfirst with hnil | ⟨x, hone, hx⟩
  · have hfee : feeNat args pool.length 0 ≤ feeNat args pool.length 1 :=
      feeNat_mono (Nat.le_refl _) (by omega)
    rw [hnil, sumNat_nil, List.length_nil]
    omega
  · rw [hone, sumNat_cons, sumNat_nil, List.length_singleton]
    omega

/-- A pool that pays keeps a change output when the others are dropped. -/
theorem drop_steady (hfits : Fits args pool) (hpays : Pays args pool)
    (h : Steady args pool removing s) (hall : s.allocated.Perm (pool.map inputOf))
    (hsome : s.changeOutputs ≠ []) (hends : Ends (dropRound args) s t) :
    t.changeOutputs ≠ [] ∧ t.changeOutputs.head? = s.changeOutputs.head? := by
  have hkept := hends.inv (I := fun u => u.Within args pool true ∧ u.allocated = s.allocated ∧
    u.changeOutputs ≠ [] ∧ u.changeOutputs.head? = s.changeOutputs.head?) ?_
    ⟨h.within.toRemoving, rfl, hsome, rfl⟩
  · exact hkept.2.2
  · rintro u u' ⟨hwithin, hallocated, hne, hhead⟩ hround
    have hshort : feeExcess args u 0 0 < 0 := by
      unfold dropRound at hround
      split at hround
      · rename_i hdrop
        simp only [Bool.and_eq_true, decide_eq_true_eq] at hdrop
        exact hdrop.2
      · cases hround
    rw [dropRound_some hround]
    refine ⟨hwithin.withOutputs (List.dropLast_sublist _), hallocated, ?_⟩
    obtain ⟨x, rest, houtputs⟩ := List.exists_cons_of_ne_nil hne
    cases rest with
    | nil =>
      have hx : x.toNat ≤ args.changeFirstSatoshis.toNat := by
        refine h.first x ?_
        rw [← hhead, houtputs]
        rfl
      have hexcess := excess_of_all hfits hpays hwithin (hallocated ▸ hall)
        (.inr ⟨x, houtputs, hx⟩)
      rw [neg_iff] at hshort
      omega
    | cons y rest =>
      rw [houtputs] at hhead ⊢
      exact ⟨by simp, by rw [← hhead]; rfl⟩

theorem churn_kept {p p' : List UInt64 × List AllocatedChangeInputRef} (hne : p.1 ≠ [])
    (hends : Ends churnRound p p') : p'.1 ≠ [] ∧ p'.1.head? = p.1.head? := by
  refine hends.inv (I := fun q => q.1 ≠ [] ∧ q.1.head? = p.1.head?) ?_ ⟨hne, rfl⟩
  rintro ⟨outputs, inputs⟩ q' ⟨hne, hhead⟩ hround
  unfold churnRound at hround
  dsimp only at hround hne hhead ⊢
  split at hround
  · rename_i hmany
    simp only [Bool.and_eq_true, decide_eq_true_eq] at hmany
    obtain ⟨i, -, rfl⟩ := Option.map_eq_some_iff.mp hround
    obtain ⟨x, rest, rfl⟩ := List.exists_cons_of_ne_nil hne
    cases rest with
    | nil => simp at hmany
    | cons y rest => exact ⟨by simp, by rw [← hhead]; rfl⟩
  · cases hround

/-- The starvation loop of a pool that pays ends with enough, and with change for what is over. -/
theorem starved_pays (hfits : Fits args pool) (hpays : Pays args pool)
    (hnodup : (pool.map (·.outputId)).Nodup) (h : Starved args removing s t)
    (hsteady : Steady args pool removing (releaseAll s)) :
    0 ≤ (feeExcess args t 0 0).toInt ∧ (t.changeOutputs = [] → ¬feeExcess args t 0 0 > 0) := by
  have hall : ∀ {removing : Bool} {r f : Selection}, Steady args pool removing r →
      Ends (fundRound args removing) r f → feeExcess args f 0 0 < 0 →
      f.allocated.Perm (pool.map inputOf) := by
    intro removing r f hr fund hshort
    have hperm := (fund_steady hr fund).all
    rwa [fund_short fund hshort, List.append_nil] at hperm
  induction h with
  | funded fund done =>
    have hend := fund_steady hsteady fund
    refine ⟨?_, fun hnil => (hend.given hnil).2⟩
    by_contra hneg
    have hshort : feeExcess args _ 0 0 < 0 := neg_iff.mpr (Int.not_le.mp hneg)
    rcases done with henough | hnil
    · rw [nonneg_iff] at henough
      exact hneg henough
    · exact hneg (excess_of_all hfits hpays hend.within (hall hsteady fund hshort) (.inl hnil))
  | unfunded fund short drop still =>
    have hend := fund_steady hsteady fund
    have hspent := hall hsteady fund (Int64.not_le.mp short.1)
    have hkept := drop_steady hfits hpays hend hspent short.2 drop
    exact absurd (drop_short drop still) hkept.1
  | again fund short drop enough churn rest ih =>
    rename_i f d t churned
    have hend := fund_steady hsteady fund
    have hspent := hall hsteady fund (Int64.not_le.mp short.1)
    obtain ⟨hne, hhead⟩ := drop_steady hfits hpays hend hspent short.2 drop
    obtain ⟨hne', hhead'⟩ := churn_kept hne churn
    obtain ⟨hstorage, hallocated⟩ := drop_kept drop
    have hinputs : d.storage.inputs.Perm (pool.map inputOf) := hstorage ▸ hend.inputs
    have hids : d.storage.outputIds.Nodup := by
      refine ((hinputs.map (·.outputId)).nodup_iff).mpr ?_
      rw [List.map_map]
      exact hnodup
    have hcovered : d.storage.Covered (d.allocated.map (·.outputId)) := by
      rw [hstorage, hallocated]
      exact hend.covered
    have hchurned := (drop_within hend.within drop).withOutputs (churn_sublist churn)
    have hreleased := @releaseAll_covered { d with changeOutputs := churned.1 } hids hcovered
    refine ih ⟨release_within hchurned hinputs, ?_, hreleased, ?_, ?_, fun hnil => absurd hnil hne'⟩
    · rw [releaseAll_inputs]
      exact hinputs
    · have husable := usable_of_covered hreleased
      rw [releaseAll_inputs] at husable
      rw [husable]
      exact hinputs
    · intro x hx
      exact hend.first x (hhead ▸ hhead' ▸ hx)

end Loops

/-! ## The call -/

section Call

variable {args : GenerateChangeSdkArgs} {available : List AvailableChange} {s : Selection}
  {adjustment : Option MaxPossibleSatoshisAdjustment} {message : String} {total more : Int}

/-- The funds are insufficient when the selection falls short, or has nowhere to put what is over. -/
theorem finish_insufficient
    (h : finish args s adjustment = .error (.insufficientFunds message total more)) :
    feeExcess args s 0 0 < 0 ∨ s.changeOutputs = [] ∧ feeExcess args s 0 0 > 0 := by
  unfold finish at h
  dsimp only at h
  split at h
  · rename_i hshort
    exact .inl hshort
  · split at h
    · rename_i hover
      simp only [Bool.and_eq_true, decide_eq_true_eq, List.isEmpty_iff] at hover
      exact .inr hover
    · split at h <;> cases h

theorem wanted_steady :
    Steady args available false (releaseAll (wantedSelection args [] available)) := by
  obtain ⟨hallocated, hstorage, -, -, hfirst⟩ := @wanted_start args [] available
  have hinputs := @withNoSendChange_inputs [] available
  have hwithin : (wantedSelection args [] available).Within args available false :=
    @wanted_within args [] available
  rw [wanted_release]
  refine ⟨hwithin, hstorage ▸ hinputs, ?_, ?_, fun x hx => ?_, fun hnil => ⟨rfl, fun hpos => ?_⟩⟩
  · rw [hallocated, hstorage]
    refine covered_append.mpr ⟨nofun, fun c hc => ?_⟩
    obtain ⟨c', -, rfl⟩ := List.mem_map.mp ((List.perm_insertionSort _ _).mem_iff.mp hc)
    exact .inl rfl
  · rw [hallocated, hstorage, withNoSendChange_usable]
    exact hinputs
  · rw [hfirst x hx]
  · have hstops := (@wanted_ends args [] available).stops
    unfold wantRound at hstops
    rw [if_pos (by simp [hnil, hpos])] at hstops
    cases hstops

/-- Where the whole pool pays, the funds are sufficient. -/
theorem change_funds (args : GenerateChangeSdkArgs) (available : List AvailableChange)
    (message : String) (total more : Int) (hfits : Fits args available)
    (hids : (available.map (·.outputId)).Nodup)
    (hmax : maxPossibleSatoshis ∉ args.fixedOutputs.map (·.satoshis)) (hpays : Pays args available) :
    generateChangeSdkWithNoSend args [] available ≠
      .error (.insufficientFunds message total more) := by
  intro h
  obtain ⟨henough, hspread⟩ :=
    starved_pays hfits hpays hids (@selected_starved args [] available) wanted_steady
  rw [generate_eq] at h
  generalize selectChange args [] available = t at h henough hspread
  rcases except_bind_error h with hvalid | ⟨hasMax, hvalid, h⟩
  · have hvalidated : Validated args (.error (.insufficientFunds message total more)) :=
      hvalid ▸ validateParams_validated
    obtain ⟨_, _, heq⟩ := hvalidated
    cases heq
  · have hvalidated : Validated args (.ok hasMax) := hvalid ▸ validateParams_validated
    cases hasMax with
    | some i => exact hmax (List.mem_of_getElem? (hvalidated i rfl))
    | none =>
      have hsame : adjustMaxPossible args none t = .ok (t, none) := by
        unfold adjustMaxPossible
        split <;> rfl
      rw [hsame] at h
      rcases finish_insufficient h with hshort | ⟨hnil, hover⟩
      · rw [neg_iff] at hshort
        omega
      · exact hspread hnil hover

/-- A coin of 1000 beside coins that cost more than they are worth. -/
def dustyPool (dust : Nat) : List AvailableChange :=
  thousandCoin :: (List.range dust).map fun i => { outputId := i + 2, satoshis := 1 }

/-- A payment of 500 at a satoshi for each byte; one more change output is wanted. -/
def dearArgs : GenerateChangeSdkArgs :=
  { paymentArgs with
    feeModel := { value := 1000 }, changeFirstSatoshis := 200, targetNetCount := some 1 }

/-- The coin alone pays for the payment. -/
theorem change_funds_coin :
    (∀ message total more, generateChangeSdkWithNoSend dearArgs [] (dustyPool 0) ≠
      .error (.insufficientFunds message total more)) ∧ Pays dearArgs (dustyPool 0) := by
  have hpays : Pays dearArgs (dustyPool 0) := by
    unfold Pays
    decide
  exact ⟨fun message total more => change_funds dearArgs (dustyPool 0) message total more
    ⟨by decide, by decide, by decide⟩ (by decide) (by decide) hpays, hpays⟩

theorem dusty_result :
    (match generateChangeSdkWithNoSend dearArgs [] (dustyPool 5) with
      | .error (.insufficientFunds _ _ more) => some more
      | _ => none) = some 427 := by
  decide +kernel

/-- With five coins of 1 in the pool the same coin is not found sufficient. -/
theorem dusty_insufficient :
    ((dustyPool 5).map (·.outputId)).Nodup ∧
      maxPossibleSatoshis ∉ dearArgs.fixedOutputs.map (·.satoshis) ∧ Fits dearArgs (dustyPool 5) ∧
      (∃ part, part.Sublist (dustyPool 5) ∧ Pays dearArgs part) ∧
      ∃ message total more, generateChangeSdkWithNoSend dearArgs [] (dustyPool 5) =
        .error (.insufficientFunds message total more) := by
  refine ⟨by decide, by decide, ⟨by decide, by decide, by decide⟩, ⟨[thousandCoin], ?_, ?_⟩, ?_⟩
  · exact (List.nil_sublist _).cons_cons _
  · unfold Pays
    decide
  · have hresult := dusty_result
    split at hresult
    · rename_i message total more heq
      exact ⟨message, total, more, heq⟩
    · cases hresult

end Call

end WalletToolbox.Storage
