import WalletToolbox.Laws.CreateAction
import WalletToolbox.Laws.ProcessAction
import WalletToolbox.Sample

/-! # The change of a noSend action

createAction returns the outpoints of the change it has planned, for a following noSend action to
spend.
They are texts: the txid that the signer computes and a vout.
The rows get their txid from processAction, and the next createAction looks them up by it. -/

namespace WalletToolbox.Signer

open WalletToolbox.Lib WalletToolbox.Storage
open WalletToolbox.Lib.Prog hiding pure exec

/-! ## Outpoints as texts -/

theorem parseVout_digits {digits : List Char} (hdigits : ∀ c ∈ digits, c.isDigit = true) :
    parseVout digits =
      if digits.foldl (fun n c => n * 10 + (c.toNat - '0'.toNat)) 0 < 4294967296
      then digits.foldl (fun n c => n * 10 + (c.toNat - '0'.toNat)) 0 else 0 := by
  have hvalue : parseVout.value digits =
      if digits.foldl (fun n c => n * 10 + (c.toNat - '0'.toNat)) 0 < 4294967296
      then digits.foldl (fun n c => n * 10 + (c.toNat - '0'.toNat)) 0 else 0 := by
    unfold parseVout.value
    rw [if_pos (List.all_eq_true.mpr hdigits)]
  have hplus : ∀ rest, digits ≠ '+' :: rest := by
    rintro rest rfl
    have hdigit := hdigits '+' (by simp)
    cases hdigit
  unfold parseVout
  split
  · rfl
  · exact absurd rfl (hplus _)
  · exact absurd rfl (hplus _)
  · exact hvalue

theorem parseVout_toDigits {v : Nat} (h : v < 4294967296) : parseVout (Nat.toDigits 10 v) = v := by
  have hfold : (Nat.toDigits 10 v).foldl (fun n c => n * 10 + (c.toNat - '0'.toNat)) 0 = v := by
    have hparsed := Nat.ofDigitChars_ten_toDigits (n := v)
    rw [Nat.ofDigitChars_eq_foldl] at hparsed
    simpa only [Nat.mul_comm] using hparsed
  rw [parseVout_digits fun c hc => Nat.isDigit_of_mem_toDigits (by decide) (by decide) hc, hfold,
    if_pos h]

/-- The text of an outpoint reads back, whatever the txid is. -/
theorem parseOutpointString_text (txid : String) {v : Nat} (h : v < 4294967296) :
    parseOutpointString (txid ++ "." ++ toString v) = { txid, vout := v } := by
  have hdot : ∀ c ∈ (toString v).toList.reverse, (c != '.') = true := by
    intro c hc
    rw [List.mem_reverse, Nat.toString_eq_repr, Nat.toList_repr] at hc
    have hdigit := Nat.isDigit_of_mem_toDigits (by decide) (by decide) hc
    refine bne_iff_ne.mpr fun heq => ?_
    rw [heq] at hdigit
    cases hdigit
  have hreversed : (txid ++ "." ++ toString v).toList.reverse =
      (toString v).toList.reverse ++ '.' :: txid.toList.reverse := by
    simp
  unfold parseOutpointString
  simp only [hreversed]
  rw [List.dropWhile_append_of_pos hdot, List.takeWhile_append_of_pos hdot]
  simp [parseVout_toDigits h]

/-! ## The vouts of a plan -/

theorem swap_perm {xs : List Nat} {i j : Nat} (hi : i < xs.length) (hj : j < xs.length) :
    (swap xs i j).Perm xs := by
  have hgeti : xs.getD i 0 = xs[i] := by simp [hi]
  have hgetj : xs.getD j 0 = xs[j] := by simp [hj]
  unfold swap
  rw [hgeti, hgetj]
  exact List.set_set_perm hi hj

theorem shuffle_perm (index : (n : Nat) → Fin (n + 1)) {n : Nat} {xs : List Nat}
    (h : n ≤ xs.length) : (shuffle index n xs).Perm xs := by
  induction n generalizing xs with
  | zero => exact .refl xs
  | succ n ih =>
    have hswap : (swap xs n (index n)).Perm xs :=
      swap_perm (by omega) (Nat.lt_of_lt_of_le (index n).isLt h)
    exact (ih (by rw [hswap.length_eq]; omega)).trans hswap

/-- What is planned about an output, apart from its place in the database. -/
structure Coin where
  userId : Nat
  vout : Nat
  change : Bool
  providedBy : StorageProvidedBy
  purpose : String
  basketId : Option Nat
  satoshis : Int

def coin (o : Output) : Coin where
  userId := o.userId
  vout := o.vout
  change := o.change
  providedBy := o.providedBy
  purpose := o.purpose
  basketId := o.basketId
  satoshis := o.satoshis

/-- A change output in the basket, with an amount still to be looked at. -/
structure ChangeCoin (userId basketId : Nat) (c : Coin) : Prop where
  userId : c.userId = userId
  change : c.change = true
  providedBy : c.providedBy = .storage
  purpose : c.purpose = "change"
  basketId : c.basketId = some basketId

/-- A plan for the action: the outputs have different vouts, and those marked as change are
change. -/
structure PlannedOutputs (userId id basketId : Nat) (pending : List PendingOutput) : Prop where
  vouts : (pending.map (·.row.vout)).Nodup
  own : ∀ p ∈ pending, p.row.transactionId = id
  sameVout : ∀ p ∈ pending, p.record.vout = p.row.vout
  change : ∀ p ∈ pending, p.isChange = true → ChangeCoin userId basketId (coin p.row)

/-- Before the vouts are assigned the outputs are numbered in order. -/
structure Numbered (userId id basketId : Nat) (pending : List PendingOutput) : Prop where
  vouts : pending.map (·.row.vout) = List.range pending.length
  own : ∀ p ∈ pending, p.row.transactionId = id
  sameVout : ∀ p ∈ pending, p.record.vout = p.row.vout
  change : ∀ p ∈ pending, p.isChange = true → ChangeCoin userId basketId (coin p.row)

/-- The record of an output that the caller asked for. -/
structure Asked (spec : StorageCreateActionOutput) (record : StorageCreateTransactionSdkOutput) :
    Prop where
  lockingScript : record.lockingScript = spec.lockingScript
  satoshis : record.satoshis = spec.satoshis
  tags : record.tags = spec.tags
  providedBy : record.providedBy = .you
  purpose : record.purpose = none

/-- The record of a change output with the given amount. -/
structure ChangeMade (satoshis : UInt64) (record : StorageCreateTransactionSdkOutput) : Prop where
  satoshis : record.satoshis = satoshis
  providedBy : record.providedBy = .storage
  purpose : record.purpose = some "change"
  derivationSuffix : record.derivationSuffix ≠ none

/-- The records of a plan: the outputs that were asked for in their order, then the change. -/
def Records (specs : List StorageCreateActionOutput) (changeOutputs : List UInt64)
    (records : List StorageCreateTransactionSdkOutput) : Prop :=
  ∃ asked change, records = asked ++ change ∧ List.Forall₂ Asked specs asked ∧
    List.Forall₂ ChangeMade changeOutputs change

theorem Records.getElem? {specs : List StorageCreateActionOutput} {changeOutputs : List UInt64}
    {records : List StorageCreateTransactionSdkOutput} (h : Records specs changeOutputs records)
    {i : Nat} {spec : StorageCreateActionOutput} (hspec : specs[i]? = some spec) :
    ∃ record, records[i]? = some record ∧ Asked spec record := by
  obtain ⟨asked, change, rfl, hasked, -⟩ := h
  obtain ⟨hi, rfl⟩ := List.getElem?_eq_some_iff.mp hspec
  have hi' : i < asked.length := hasked.length_eq ▸ hi
  exact ⟨asked[i], by rw [List.getElem?_append_left hi', List.getElem?_eq_getElem hi'],
    hasked.get hi hi'⟩

theorem map_eq_of_forall₂ {α β γ : Type} {R : α → β → Prop} {f : α → γ} {f' : β → γ}
    (hsame : ∀ a b, R a b → f' b = f a) {as : List α} {bs : List β} (h : List.Forall₂ R as bs) :
    bs.map f' = as.map f := by
  induction h with
  | nil => rfl
  | cons hhead _ ih => rw [List.map_cons, List.map_cons, hsame _ _ hhead, ih]

theorem Records.satoshis {specs : List StorageCreateActionOutput} {changeOutputs : List UInt64}
    {records : List StorageCreateTransactionSdkOutput} (h : Records specs changeOutputs records) :
    records.map (·.satoshis) = specs.map (·.satoshis) ++ changeOutputs := by
  obtain ⟨asked, change, rfl, hasked, hchange⟩ := h
  have hchange' : change.map (·.satoshis) = changeOutputs.map id :=
    map_eq_of_forall₂ (fun _ _ h => h.satoshis) hchange
  rw [List.map_append, map_eq_of_forall₂ (fun _ _ h => h.satoshis) hasked, hchange', List.map_id]

theorem Records.ne_nil {specs : List StorageCreateActionOutput} {changeOutputs : List UInt64}
    {records : List StorageCreateTransactionSdkOutput} (h : Records specs changeOutputs records)
    (hne : specs ≠ []) : records ≠ [] := by
  obtain ⟨spec, hspec⟩ := List.exists_mem_of_ne_nil _ hne
  obtain ⟨i, hi⟩ := List.mem_iff_getElem?.mp hspec
  obtain ⟨record, hrecord, -⟩ := h.getElem? hi
  exact List.ne_nil_of_mem (List.mem_of_getElem? hrecord)

theorem randomizedVouts_perm {entropy : Entropy} {inRange : Bool} {len : Nat} {vouts : List Nat}
    (h : randomizedVouts entropy inRange len = .ok vouts) : vouts.Perm (List.range len) := by
  unfold randomizedVouts at h
  split at h
  · cases h
  · cases h
    exact shuffle_perm _ (by simp)

theorem forall₂_zipWith {α β γ : Type} {R : α → β → Prop} {f : β → γ → β} {xs : List α}
    {ys : List β} {zs : List γ} (hkeep : ∀ x y z, R x y → R x (f y z)) (h : List.Forall₂ R xs ys)
    (hlength : zs.length = ys.length) : List.Forall₂ R xs (List.zipWith f ys zs) := by
  induction h generalizing zs with
  | nil => exact .nil
  | cons hhead _ ih =>
    cases zs with
    | nil => cases hlength
    | cons z zs => exact .cons (hkeep _ _ z hhead) (ih (by simpa using hlength))

/-- The assignment changes the vouts only, and they become the positions in some order. -/
theorem assignVouts_cases {args : StorageCreateActionArgs} {entropy : Entropy}
    {pending assigned : List PendingOutput} (h : assignVouts args entropy pending = .ok assigned) :
    assigned = pending ∨ ∃ vouts, vouts.Perm (List.range pending.length) ∧
      assigned = List.zipWith PendingOutput.withVout pending vouts := by
  unfold assignVouts at h
  split at h
  · cases hvouts : randomizedVouts entropy args.randomValsInRange pending.length with
    | error e =>
      rw [hvouts] at h
      cases h
    | ok vouts =>
      rw [hvouts] at h
      exact .inr ⟨vouts, randomizedVouts_perm hvouts, (Except.ok.inj h).symm⟩
  · exact .inl (Except.ok.inj h).symm

theorem Records.assignVouts {args : StorageCreateActionArgs} {entropy : Entropy}
    {specs : List StorageCreateActionOutput} {changeOutputs : List UInt64}
    {pending assigned : List PendingOutput}
    (hrecords : Records specs changeOutputs (pending.map (·.record)))
    (h : assignVouts args entropy pending = .ok assigned) :
    Records specs changeOutputs (assigned.map (·.record)) := by
  rcases assignVouts_cases h with rfl | ⟨vouts, hperm, rfl⟩
  · exact hrecords
  · obtain ⟨asked, change, heq, hasked, hchange⟩ := hrecords
    have hlength : vouts.length = asked.length + change.length := by
      rw [hperm.length_eq, List.length_range, ← List.length_append, ← heq, List.length_map]
    let setVout (r : StorageCreateTransactionSdkOutput) (v : Nat) := { r with vout := v }
    have hmap : (List.zipWith PendingOutput.withVout pending vouts).map (·.record) =
        List.zipWith setVout (asked ++ change) vouts := by
      rw [← heq, List.map_zipWith, List.zipWith_map_left]
      rfl
    rw [hmap, ← List.take_append_drop asked.length vouts, List.zipWith_append (by simp; omega)]
    refine ⟨_, _, rfl, ?_, ?_⟩
    · refine forall₂_zipWith (fun spec r v h => ?_) hasked (by simp; omega)
      exact ⟨h.lockingScript, h.satoshis, h.tags, h.providedBy, h.purpose⟩
    · refine forall₂_zipWith (fun satoshis r v h => ?_) hchange (by simp; omega)
      exact ⟨h.satoshis, h.providedBy, h.purpose, h.derivationSuffix⟩

/-- Outputs that are not shuffled stay numbered in order. -/
theorem Numbered.ordered {args : StorageCreateActionArgs} {entropy : Entropy}
    {userId id basketId : Nat} {pending assigned : List PendingOutput}
    (hnumbered : Numbered userId id basketId pending)
    (h : assignVouts args entropy pending = .ok assigned) (hfalse : args.randomizeOutputs = some false) :
    assigned.map (·.row.vout) = List.range assigned.length := by
  unfold assignVouts at h
  rw [hfalse, if_neg (by simp)] at h
  cases h
  exact hnumbered.vouts

theorem Numbered.assignVouts {args : StorageCreateActionArgs} {entropy : Entropy}
    {userId id basketId : Nat} {pending assigned : List PendingOutput}
    (hnumbered : Numbered userId id basketId pending)
    (h : assignVouts args entropy pending = .ok assigned) :
    (assigned.map (·.row.vout)).Perm (List.range assigned.length) := by
  rcases assignVouts_cases h with rfl | ⟨vouts, hperm, rfl⟩
  · rw [hnumbered.vouts]
  · have hlength : vouts.length = pending.length := by simpa using hperm.length_eq
    have hmap : (List.zipWith PendingOutput.withVout pending vouts).map (·.row.vout) = vouts := by
      rw [List.map_zipWith]
      refine List.ext_getElem (by simp [hlength]) fun i h₁ h₂ => ?_
      rw [List.getElem_zipWith]
      rfl
    rw [hmap, List.length_zipWith, hlength, Nat.min_self]
    exact hperm

theorem mem_withVouts {pending : List PendingOutput} {vouts : List Nat} {p : PendingOutput}
    (hp : p ∈ List.zipWith PendingOutput.withVout pending vouts) :
    ∃ q ∈ pending, ∃ v, p = q.withVout v := by
  obtain ⟨i, hi, rfl⟩ := List.mem_iff_getElem.mp hp
  rw [List.length_zipWith] at hi
  rw [List.getElem_zipWith]
  exact ⟨pending[i], List.getElem_mem _, _, rfl⟩

theorem assignVouts_planned {args : StorageCreateActionArgs} {entropy : Entropy}
    {userId id basketId : Nat} {pending assigned : List PendingOutput}
    (hnumbered : Numbered userId id basketId pending)
    (h : assignVouts args entropy pending = .ok assigned) :
    PlannedOutputs userId id basketId assigned := by
  have hvouts := (hnumbered.assignVouts h).nodup_iff.mpr List.nodup_range
  rcases assignVouts_cases h with rfl | ⟨vouts, -, rfl⟩
  · exact ⟨hvouts, hnumbered.own, hnumbered.sameVout, hnumbered.change⟩
  · refine ⟨hvouts, fun p hp => ?_, fun p hp => ?_, fun p hp hchange => ?_⟩
    · obtain ⟨q, hq, v, rfl⟩ := mem_withVouts hp
      exact hnumbered.own q hq
    · obtain ⟨q, -, v, rfl⟩ := mem_withVouts hp
      rfl
    · obtain ⟨q, hq, v, rfl⟩ := mem_withVouts hp
      have hold := hnumbered.change q hq hchange
      exact ⟨hold.userId, hold.change, hold.providedBy, hold.purpose, hold.basketId⟩

/-! ## What createAction stores -/

section Plan

variable {sdk : Sdk} {s s' : Store} {userId id basketId : Nat}

/-- The outputs of a transaction. -/
def ownCoins (id : Nat) (s : Store) : List Coin :=
  (s.outputs.find (·.transactionId == id)).map coin

/-- Statements that add no output and change none but for claims. -/
def KeepsCoins : Stmt → Prop
  | .markInputsSpent _ _ _ => True
  | w => w.target ≠ .outputs

theorem ownCoins_step {w : Stmt} {n : Nat} (hexec : w.exec s = .ok (n, s')) (hw : KeepsCoins w) :
    ownCoins id s' = ownCoins id s := by
  unfold ownCoins
  by_cases htarget : w.target = .outputs
  · cases w with
    | markInputsSpent ids t u =>
      rw [(exec_eq hexec).2]
      simp only [Stmt.apply]
      refine (congrArg _ (Table.find_update ?_)).trans ?_
      · exact fun _ => rfl
      · rw [List.map_map]
        refine List.map_congr_left fun o _ => ?_
        simp only [Function.comp_apply]
        split <;> rfl
    | _ => exact absurd htarget hw
  · rw [exec_outputs hexec htarget]

/-- A part of the call that stores no output. -/
theorem wp_keepsCoins {α : Type} {p : StorageProg α} {c : List Coin} (hp : p.Emits KeepsCoins)
    (h : ownCoins id s = c) :
    wp Stmt.exec p (fun _ s' => ownCoins id s' = c) (fun _ => True) s := by
  have hstep : ∀ (w : Stmt) (s : Store) (n : Nat) (s' : Store), KeepsCoins w → ownCoins id s = c →
      w.exec s = .ok (n, s') → ownCoins id s' = c :=
    fun _ _ _ _ hw h hexec => (ownCoins_step hexec hw).trans h
  exact wp_mono (hp.wp hstep h) (fun _ _ h => h) fun _ _ => trivial

/-- The outputs that the caller asked for come first. -/
theorem wp_pendingCallers_numbered {specs : List StorageCreateActionOutput} {now : Nat}
    (basketId : Nat) (h : ownCoins id s = []) :
    wp Stmt.exec (specs.foldlM (pendingCaller now userId id) [])
      (fun pending s' => ownCoins id s' = [] ∧ Numbered userId id basketId pending)
      (fun _ => True) s := by
  have hnone : Numbered userId id basketId [] := ⟨rfl, by simp, by simp, by simp⟩
  refine wp_foldlM (I := fun (pending : List PendingOutput) s' =>
    ownCoins id s' = [] ∧ Numbered userId id basketId pending)
    (fun spec _ pending s₁ h₁ => ?_) ⟨h, hnone⟩
  obtain ⟨hempty, hnumbered⟩ := h₁
  unfold pendingCaller
  rw [wp_bind]
  refine wp_mono (wp_keepsCoins (emits_callerBasketId fun b => by simp [KeepsCoins, Stmt.target]) hempty) (fun _ s₂ h₂ => ?_) fun _ h => h
  refine ⟨h₂, ?_, fun p hp => ?_, fun p hp => ?_, fun p hp hchange => ?_⟩
  · rw [List.map_append, hnumbered.vouts, List.length_append]
    exact List.range_succ.symm
  · rcases List.mem_append.mp hp with hold | hnew
    · exact hnumbered.own p hold
    · rw [List.mem_singleton.mp hnew]
  · rcases List.mem_append.mp hp with hold | hnew
    · exact hnumbered.sameVout p hold
    · rw [List.mem_singleton.mp hnew]
  · rcases List.mem_append.mp hp with hold | hnew
    · exact hnumbered.change p hold hchange
    · rw [List.mem_singleton.mp hnew] at hchange
      cases hchange

theorem wp_pendingCallers_asked {specs : List StorageCreateActionOutput}
    {pending : List PendingOutput} {now : Nat} :
    wp Stmt.exec (specs.foldlM (pendingCaller now userId id) pending)
      (fun all _ => ∃ asked, all = pending ++ asked ∧
        List.Forall₂ Asked specs (asked.map (·.record))) (fun _ => True) s := by
  induction specs generalizing pending s with
  | nil => exact ⟨[], (List.append_nil _).symm, .nil⟩
  | cons spec specs ih =>
    rw [List.foldlM_cons, wp_bind]
    unfold pendingCaller
    rw [wp_bind]
    refine wp_mono wp_trivial (fun basketId s₁ _ => ?_) fun _ h => h
    dsimp only
    rw [wp_pure]
    refine wp_mono ih ?_ fun _ h => h
    rintro all _ ⟨asked, rfl, hasked⟩
    exact ⟨_ :: asked, by rw [List.append_assoc, List.singleton_append],
      .cons ⟨rfl, rfl, rfl, rfl, rfl⟩ hasked⟩

theorem changeMade {now : Nat} {entropy : Entropy} (changeOutputs : List UInt64) (first start : Nat) :
    List.Forall₂ ChangeMade changeOutputs (((changeOutputs.zipIdx start).map fun (satoshis, i) =>
      pendingChange now userId id basketId entropy (first + i) satoshis).map (·.record)) := by
  induction changeOutputs generalizing start with
  | nil => exact .nil
  | cons satoshis rest ih => exact .cons ⟨rfl, rfl, rfl, nofun⟩ (ih (start + 1))

/-- The change comes after them. -/
theorem Numbered.withChange {caller : List PendingOutput} {now : Nat} {entropy : Entropy}
    (h : Numbered userId id basketId caller) (changeOutputs : List UInt64) :
    Numbered userId id basketId (caller ++ changeOutputs.zipIdx.map fun (satoshis, i) =>
      pendingChange now userId id basketId entropy (caller.length + i) satoshis) := by
  refine ⟨?_, fun p hp => ?_, fun p hp => ?_, fun p hp hchange => ?_⟩
  · rw [List.map_append, h.vouts, List.map_map, List.length_append, List.length_map,
      List.length_zipIdx, List.range_add]
    refine congrArg (List.range caller.length ++ ·) (List.ext_getElem (by simp) fun i h₁ h₂ => ?_)
    simp [pendingChange]
  · rcases List.mem_append.mp hp with hold | hnew
    · exact h.own p hold
    · obtain ⟨⟨satoshis, i⟩, -, rfl⟩ := List.mem_map.mp hnew
      rfl
  · rcases List.mem_append.mp hp with hold | hnew
    · exact h.sameVout p hold
    · obtain ⟨⟨satoshis, i⟩, -, rfl⟩ := List.mem_map.mp hnew
      rfl
  · rcases List.mem_append.mp hp with hold | hnew
    · exact h.change p hold hchange
    · obtain ⟨⟨satoshis, i⟩, -, rfl⟩ := List.mem_map.mp hnew
      exact ⟨rfl, rfl, rfl, rfl, rfl⟩

/-- Storing outputs of the action one after another. -/
theorem wp_insertOutputs {pending : List PendingOutput} {c : List Coin}
    (hown : ∀ p ∈ pending, p.row.transactionId = id) (h : ownCoins id s = c) :
    wp Stmt.exec (forM pending fun p => exec' (.insertOutput p.row))
      (fun _ s' => ownCoins id s' = c ++ pending.map (coin ·.row)) (fun _ => True) s := by
  induction pending generalizing s c with
  | nil =>
    rw [List.map_nil, List.append_nil]
    exact h
  | cons p pending ih =>
    rw [List.forM_cons, wp_bind]
    refine wp_exec' (fun n s₁ hexec => ?_) fun _ _ => trivial
    have hstored : ownCoins id s₁ = c ++ [coin p.row] := by
      unfold ownCoins at h ⊢
      rw [(exec_eq hexec).2]
      simp only [Stmt.apply]
      refine (congrArg _ Table.find_insert).trans ?_
      have hsel : ((p.row.stored (s.outputs.lastId + 1)).transactionId == id) = true :=
        beq_iff_eq.mpr (hown p (by simp))
      rw [if_pos hsel, List.map_append, h]
      rfl
    refine wp_mono (ih (fun q hq => hown q (by simp [hq])) hstored) (fun _ s₂ h₂ => ?_) fun _ h => h
    rw [h₂, List.append_assoc]
    rfl

theorem wp_storeOutputs_planned {args : StorageCreateActionArgs} {entropy : Entropy} {now : Nat}
    {changeOutputs : List UInt64} (h : ownCoins id s = []) :
    wp Stmt.exec (storeOutputs args entropy now userId id basketId changeOutputs)
      (fun pending s' => PlannedOutputs userId id basketId pending ∧
        Records args.outputs changeOutputs (pending.map (·.record)) ∧
        (pending.map (·.row.vout)).Perm (List.range pending.length) ∧
        ownCoins id s' = pending.map (coin ·.row) ∧
        (args.randomizeOutputs = some false →
          pending.map (·.row.vout) = List.range pending.length)) (fun _ => True) s := by
  unfold storeOutputs
  rw [wp_bind]
  refine wp_mono (wp_and (wp_pendingCallers_numbered basketId h) wp_pendingCallers_asked)
    ?_ fun _ _ => trivial
  rintro caller s₁ ⟨⟨hempty, hnumbered⟩, asked, rfl, hasked⟩
  rw [wp_bind]
  refine wp_ofExcept (fun pending hpending => ?_) fun _ _ => trivial
  have hall := @Numbered.withChange userId id basketId caller now entropy hnumbered changeOutputs
  have hplanned := assignVouts_planned hall hpending
  have hrecords := Records.assignVouts ⟨_, _, List.map_append, hasked, changeMade _ _ _⟩ hpending
  rw [wp_bind]
  refine wp_mono (wp_insertOutputs hplanned.own hempty) (fun _ s₂ h₂ => ?_) fun _ h => h
  exact ⟨hplanned, hrecords, hall.assignVouts hpending, h₂, hall.ordered hpending⟩

/-- The change of an action is stored: different vouts, and each reported vout is one of change. -/
structure ChangePlanned (userId id basketId : Nat) (vouts : List Nat) (s : Store) : Prop where
  distinct : ∀ o ∈ s.outputs, ∀ o' ∈ s.outputs, o.transactionId = id → o'.transactionId = id →
    o.vout = o'.vout → o = o'
  change : ∀ v ∈ vouts, ∃ o ∈ s.outputs, o.transactionId = id ∧ o.vout = v ∧
    ChangeCoin userId basketId (coin o)

theorem PlannedOutputs.stored {pending : List PendingOutput}
    (h : PlannedOutputs userId id basketId pending) (hs : ownCoins id s = pending.map (coin ·.row)) :
    ChangePlanned userId id basketId ((pending.filter (·.isChange)).map (·.record.vout)) s := by
  refine ⟨fun o ho o' ho' hid hid' hvout => ?_, fun v hv => ?_⟩
  · have hnodup : ((s.outputs.find (·.transactionId == id)).map (·.vout)).Nodup := by
      have hvouts : ((ownCoins id s).map (·.vout)).Nodup := by
        rw [hs, List.map_map]
        exact h.vouts
      unfold ownCoins at hvouts
      rwa [List.map_map] at hvouts
    exact List.inj_on_of_nodup_map hnodup (Table.mem_find.mpr ⟨ho, beq_iff_eq.mpr hid⟩)
      (Table.mem_find.mpr ⟨ho', beq_iff_eq.mpr hid'⟩) hvout
  · obtain ⟨p, hp, rfl⟩ := List.mem_map.mp hv
    obtain ⟨hmem, hchange⟩ := List.mem_filter.mp hp
    have hcoin : coin p.row ∈ ownCoins id s := by
      rw [hs]
      exact List.mem_map_of_mem hmem
    obtain ⟨o, ho, heq⟩ := List.mem_map.mp hcoin
    obtain ⟨ho, hid⟩ := Table.mem_find.mp ho
    refine ⟨o, ho, beq_iff_eq.mp hid, ?_, heq ▸ h.change p hmem hchange⟩
    rw [h.sameVout p hmem]
    exact congrArg Coin.vout heq

/-- The plan that a result reports is stored. -/
structure PlanStored (args : StorageCreateActionArgs) (userId id basketId : Nat)
    (pending : List PendingOutput) (r : StorageCreateActionResult) (s : Store) : Prop where
  planned : PlannedOutputs userId id basketId pending
  records : ∃ changeOutputs, Records args.outputs changeOutputs r.outputs
  outputs : r.outputs = pending.map (·.record)
  noSendChange : r.noSendChangeOutputVouts =
    if args.isNoSend then some ((pending.filter (·.isChange)).map (·.record.vout)) else none
  stored : ownCoins id s = pending.map (coin ·.row)

theorem PlanStored.change {args : StorageCreateActionArgs} {pending : List PendingOutput}
    {r : StorageCreateActionResult} (h : PlanStored args userId id basketId pending r s) :
    ChangePlanned userId id basketId (r.noSendChangeOutputVouts.getD []) s := by
  have hchange := h.planned.stored h.stored
  rw [h.noSendChange]
  split
  · exact hchange
  · exact ⟨hchange.distinct, nofun⟩

theorem wp_planAction_stored {entropy : Entropy} {args : StorageCreateActionArgs}
    {basket : OutputBasket} {now : Nat} (h : ownCoins id s = []) :
    wp Stmt.exec (planAction sdk entropy userId args basket now id)
      (fun r s' => ∃ pending, PlanStored args userId id basket.basketId pending r s')
      (fun _ => True) s := by
  have hmarks : ∀ ids, KeepsCoins (.markInputsSpent ids id userId) := fun _ => trivial
  unfold planAction
  rw [wp_bind]
  have hlabels : (forM args.labels (addActionLabel now userId id)).Emits KeepsCoins :=
    Emits.forM fun label _ => emits_addActionLabel (fun l => by simp [KeepsCoins, Stmt.target])
      fun m => by simp [KeepsCoins, Stmt.target]
  refine wp_mono (wp_keepsCoins hlabels h) (fun _ s₁ h₁ => ?_) fun _ h => h
  rw [wp_bind]
  refine wp_ofExcept (fun beef _ => ?_) fun _ _ => trivial
  rw [wp_bind]
  refine wp_mono (wp_keepsCoins (Emits.foldlM fun _ _ _ => emits_planInput hmarks) h₁)
    (fun planned s₂ h₂ => ?_) fun _ h => h
  rw [wp_bind]
  refine wp_mono (wp_keepsCoins (emits_fundAction hmarks) h₂) (fun funding s₃ h₃ => ?_) fun _ h => h
  rw [wp_bind]
  refine wp_mono (wp_storeOutputs_planned h₃) ?_ fun _ h => h
  rintro pending s₄ ⟨hplanned, hrecords, -, h₄, -⟩
  rw [wp_bind]
  refine wp_mono (wp_keepsCoins emits_addChangeInputs h₄) (fun inputs s₅ h₅ => ?_) fun _ h => h
  rw [wp_bind]
  refine wp_exec' (fun n s₆ hexec => ?_) fun _ _ => trivial
  exact ⟨pending, hplanned, ⟨_, hrecords⟩, rfl, rfl,
    (ownCoins_step hexec (by simp [KeepsCoins, Stmt.target])).trans h₅⟩

/-- A new transaction has no outputs yet. -/
theorem ownCoins_new {args : StorageCreateActionArgs} {now n : Nat} {reference : String}
    (hexec : (Stmt.insertTransaction (newTransaction now userId args reference)).exec s = .ok (n, s')) :
    ownCoins n s' = [] := by
  have hcreated := created_insertTransaction hexec
  unfold ownCoins
  rw [exec_outputs hexec nofun, Table.find_eq_nil.mpr fun o ho => ?_]
  · rfl
  · obtain ⟨t, ht, hid⟩ := s.foreign.outputTransaction o ho
    exact beq_eq_false_iff_ne.mpr fun heq => hcreated.fresh t ht (hid.trans heq)

theorem wp_doCreateAction_stored {entropy : Entropy} {args : StorageCreateActionArgs}
    {basket : OutputBasket} {now : Nat} :
    wp Stmt.exec (doCreateAction sdk entropy userId args basket now)
      (fun r s' => r.reference = entropy.reference ∧
        ∃ id, (∃ t ∈ s'.transactions, NewAction userId id entropy.reference t) ∧
          ∃ pending, PlanStored args userId id basket.basketId pending r s')
      (fun _ => True) s := by
  unfold doCreateAction
  rw [wp_bind]
  refine wp_exec (fun n s₁ hexec => ?_) fun _ _ => trivial
  have hcreated := created_insertTransaction hexec
  refine wp_mono (wp_and (wp_planAction ⟨hcreated, by simp⟩) (wp_planAction_stored (ownCoins_new hexec))) ?_
    fun _ _ => trivial
  rintro r s' ⟨⟨hreports, href⟩, hstored⟩
  exact ⟨href, n, hreports.created.added, hstored⟩

/-- The user's row is found or made; baskets are not touched. -/
theorem wp_findOrInsertUser_baskets {auth : String} :
    wp Stmt.exec (findOrInsertUser auth) (fun _ s' => s'.outputBaskets = s.outputBaskets)
      (fun _ => True) s := by
  have hemits : (findOrInsertUser auth).Emits fun w => ∃ u, w = .insertUser u :=
    emits_findOrInsertUser auth fun u => ⟨u, rfl⟩
  have hstep : ∀ (w : Stmt) (s₁ : Store) (n : Nat) (s₂ : Store), (∃ u, w = .insertUser u) →
      s₁.outputBaskets = s.outputBaskets → w.exec s₁ = .ok (n, s₂) →
      s₂.outputBaskets = s.outputBaskets := by
    rintro _ s₁ n s₂ ⟨u, rfl⟩ h hexec
    rw [(exec_eq hexec).2]
    exact h
  exact wp_mono (hemits.wp hstep rfl) (fun _ _ h => h) fun _ _ => trivial

/-- What a createAction that succeeds has stored, with the basket that it planned for. -/
theorem createAction_stored {entropy : Entropy} {auth : String} {args : StorageCreateActionArgs}
    {dcr : StorageCreateActionResult} {action : Transaction}
    (hrun : (createAction sdk entropy auth args).run Stmt.exec s = (.ok dcr, s'))
    (hmem : action ∈ s'.transactions) (href : action.reference = dcr.reference) :
    ∃ b ∈ s.outputBaskets, b.userId = action.userId ∧ b.name = "default" ∧
      ∃ pending, PlanStored args action.userId action.transactionId b.basketId pending dcr s' := by
  have hwp : wp Stmt.exec (createAction sdk entropy auth args) (fun r s' =>
      r.reference = entropy.reference ∧ ∃ userId id, ∃ b ∈ s.outputBaskets, b.userId = userId ∧
        b.name = "default" ∧ (∃ t ∈ s'.transactions, NewAction userId id entropy.reference t) ∧
          ∃ pending, PlanStored args userId id b.basketId pending r s')
      (fun _ => True) s := by
    unfold createAction
    rw [wp_bind]
    refine wp_mono wp_findOrInsertUser_baskets ?_ fun _ _ => trivial
    rintro ⟨user, isNew⟩ s₁ hbaskets
    show wp Stmt.exec (storageCreateAction sdk entropy user.userId args) _ _ s₁
    unfold storageCreateAction
    rw [wp_bind, wp_utcNow, wp_bind, wp_ask, wp_bind]
    refine wp_ofExcept (fun b hb => ?_) fun _ _ => trivial
    rw [wp_atomically]
    refine wp_mono wp_doCreateAction_stored ?_ fun _ _ => trivial
    rintro r s' ⟨href, id, hadded, hstored⟩
    have hfound : b ∈ s₁.outputBaskets.find fun b => b.userId == user.userId && b.name == "default" := by
      rw [verifyOne_ok hb]
      exact List.mem_singleton.mpr rfl
    obtain ⟨hmem, hsel⟩ := Table.mem_find.mp hfound
    simp only [Bool.and_eq_true, beq_iff_eq] at hsel
    exact ⟨href, user.userId, id, b, hbaskets ▸ hmem, hsel.1, hsel.2, hadded, hstored⟩
  obtain ⟨href', userId, id, b, hb, hbuser, hbname, ⟨t, ht, hnew⟩, hstored⟩ := wp_ok hwp hrun
  have haction : action = t :=
    s'.unique.transactions.eq hmem ht (href.trans (href'.trans hnew.reference.symm))
  rw [haction, hnew.userId, hnew.transactionId]
  exact ⟨b, hb, hbuser, hbname, hstored⟩

/-- The change that a createAction has planned, for the user's default basket. -/
theorem createAction_change {entropy : Entropy} {auth : String} {args : StorageCreateActionArgs}
    {dcr : StorageCreateActionResult} {basket : OutputBasket} {action : Transaction}
    (hrun : (createAction sdk entropy auth args).run Stmt.exec s = (.ok dcr, s'))
    (hmem : action ∈ s'.transactions) (href : action.reference = dcr.reference)
    (hbasket : basket ∈ s.outputBaskets) (hown : basket.userId = action.userId)
    (hname : basket.name = "default") :
    ChangePlanned action.userId action.transactionId basket.basketId
      (dcr.noSendChangeOutputVouts.getD []) s' := by
  obtain ⟨b, hb, hbuser, hbname, pending, hstored⟩ := createAction_stored hrun hmem href
  have hsame : basket = b := by
    refine s.unique.outputBaskets.eq hbasket hb ?_
    rw [hname, hbname, hown, hbuser]
  rw [hsame]
  exact hstored.change

end Plan

/-! ## The validation -/

/-- The user's rows at an outpoint. -/
def rowsAt (s : Store) (userId : Nat) (p : StorageOutPoint) : List Output :=
  s.outputs.find fun o => o.userId == userId && o.txid == some p.txid && o.vout == p.vout

/-- A noSend createAction of the user admits the outpoint, with the given row, unless it has admitted
this row before. -/
def Accepted (s : Store) (userId basketId : Nat) (p : StorageOutPoint) (o : Output) : Prop :=
  ∀ rows : List Output, rows.any (·.outputId == o.outputId) = false →
    (admitNoSendChange userId basketId rows p).run Stmt.exec s = (.ok (rows ++ [o]), s)

theorem accepted_iff {s : Store} {userId basketId : Nat} {p : StorageOutPoint} {o : Output} :
    Accepted s userId basketId p o ↔ rowsAt s userId p = [o] ∧ noSendChangeOk basketId o = true := by
  have hrun : ∀ rows, (admitNoSendChange userId basketId rows p).run Stmt.exec s =
      match verifyOneOrNone (rowsAt s userId p) with
      | .error e => (.error e, s)
      | .ok none => (.error invalidNoSendChange, s)
      | .ok (some o) =>
        if !noSendChangeOk basketId o then (.error invalidNoSendChange, s)
        else if rows.any (·.outputId == o.outputId) then
          (.error (.invalidParameter "noSendChange outpoint" "unique. Duplicates are not allowed."), s)
        else (.ok (rows ++ [o]), s) := by
    intro rows
    unfold admitNoSendChange rowsAt
    rw [run_bind_of_ok (run_ask _ s)]
    cases hfound : verifyOneOrNone (s.outputs.find fun o => o.userId == userId &&
        o.txid == some p.txid && o.vout == p.vout) with
    | error e => rfl
    | ok found =>
      rw [run_bind_of_ok (run_ofExcept (.ok found) s)]
      cases found with
      | none => rfl
      | some o =>
        simp only
        split
        · rfl
        · split <;> rfl
  constructor
  · intro h
    have hone := h [] rfl
    rw [hrun] at hone
    split at hone
    · cases hone
    · cases hone
    · rename_i found hfound
      split at hone
      · cases hone
      · rename_i hok
        rw [if_neg (by simp), List.nil_append] at hone
        obtain rfl : found = o := by
          have hlist := Except.ok.inj (Prod.mk.inj hone).1
          simpa using hlist
        exact ⟨verifyOneOrNone_ok hfound, by simpa using hok⟩
  · rintro ⟨hrows, hok⟩ rows hnot
    rw [hrun, hrows]
    simp [verifyOneOrNone, hok, hnot]

/-! ## The processing of the action -/

section Processing

variable {kit : Toolkit} {services : Services} {backend : SigningBackend} {auth random : String}
  {s s' : Store} {userId id basketId : Nat}

/-- A row of the action gets the final txid and becomes spendable. -/
def committed (userId id : Nat) (txid : String) (stamp : Nat) (o : Output) : Output :=
  if o.userId == userId && o.transactionId == id then
    { o with txid := some txid, spendable := true, spentBy := none, updatedAt := stamp }
  else o

/-- What processing a noSend action does to the outputs. -/
theorem process_outputs {args : StorageProcessActionArgs} {signed : Signed}
    {result : StorageProcessActionResult}
    (hrun : (processAndBroadcast kit services auth random args signed).run Stmt.exec s =
      (.ok result, s')) (hnoSend : args.isNoSend = true) (hnew : args.isNewTx = true) :
    ∃ t ∈ s.transactions, ∃ txid stamp, args.reference = some t.reference ∧ args.txid = some txid ∧
      ∀ o, o ∈ s'.outputs ↔
        ∃ o₀ ∈ s.outputs, o = committed t.userId t.transactionId txid stamp o₀ := by
  have hprocess : wp Stmt.exec (processAction auth args random) (fun _ s' =>
      ∃ t ∈ s.transactions, ∃ txid stamp, args.reference = some t.reference ∧ args.txid = some txid ∧
        ∀ o, o ∈ s'.outputs ↔
          ∃ o₀ ∈ s.outputs, o = committed t.userId t.transactionId txid stamp o₀) (fun _ => True) s := by
    refine wp_processAction_result (fun _ _ => trivial)
      (fun hnot => absurd (hnew.symm.trans hnot) nofun)
      fun _ userId s₁ hcore t txid rawTx status hp _ s' r hs' => ?_
    obtain ⟨hmem, huser, href⟩ := hp.mem
    have hbatch := scheduleAll_scheduled (s₁.toTables.commitSigned userId t txid rawTx status) userId
      random (scheduled args txid)
    rw [← hs'] at hbatch
    refine ⟨t, hcore.transactions ▸ hmem, txid, toSeconds s₁.now, href, hp.named, fun o => ?_⟩
    rw [hbatch.outputs, mem_commitSigned_outputs, hcore.outputs, huser]
    rfl
  obtain ⟨r₁, s₁, hcommit, hrest⟩ := run_bind_ok hrun
  obtain ⟨u, s₂, hbroadcast, hlast⟩ := run_bind_ok hrest
  unfold broadcastSigned at hbroadcast
  rw [hnoSend] at hbroadcast
  obtain rfl : s₁ = s₂ := (Prod.mk.inj hbroadcast).2
  obtain rfl : s₁ = s' := (Prod.mk.inj hlast).2
  exact wp_ok hprocess hcommit

/-- After the processing the outpoint is good for a following noSend action: the validation finds a
row of change of the action, now and as long as the user's rows at the outpoint stay as they are. -/
def Usable (s : Store) (userId basketId id : Nat) (p : StorageOutPoint) : Prop :=
  ∃ o, o.transactionId = id ∧ o.change = true ∧
    ∀ later : Store, rowsAt later userId p = rowsAt s userId p → Accepted later userId basketId p o

/-- Before the processing under a txid: the outpoint has this txid, its output of the action has a
positive amount, and no other transaction of the user has an output there. -/
def Lands (s : Store) (userId id : Nat) (txid : String) (p : StorageOutPoint) : Prop :=
  p.txid = txid ∧ ∀ o ∈ s.outputs, o.userId = userId → o.vout = p.vout →
    (o.transactionId = id → 0 < o.satoshis) ∧ (o.transactionId ≠ id → o.txid ≠ some txid)

theorem usable_iff {vouts : List Nat} {txid : String} {stamp : Nat} {p : StorageOutPoint}
    (hplanned : ChangePlanned userId id basketId vouts s) (hvout : p.vout ∈ vouts)
    (hout : ∀ o, o ∈ s'.outputs ↔ ∃ o₀ ∈ s.outputs, o = committed userId id txid stamp o₀) :
    Usable s' userId basketId id p ↔ Lands s userId id txid p := by
  have hown : ∀ o, o.userId = userId → o.transactionId = id → committed userId id txid stamp o =
      { o with txid := some txid, spendable := true, spentBy := none, updatedAt := stamp } := by
    intro o huser hid
    unfold committed
    rw [if_pos (by simp [huser, hid])]
  have hother : ∀ o, o.transactionId ≠ id → committed userId id txid stamp o = o := by
    intro o hne
    unfold committed
    rw [if_neg (by simp [hne])]
  have hkept : ∀ o, (committed userId id txid stamp o).transactionId = o.transactionId ∧
      (committed userId id txid stamp o).userId = o.userId ∧
      (committed userId id txid stamp o).vout = o.vout ∧
      (committed userId id txid stamp o).satoshis = o.satoshis := by
    intro o
    unfold committed
    split <;> exact ⟨rfl, rfl, rfl, rfl⟩
  constructor
  · rintro ⟨o, hid, -, haccepted⟩
    obtain ⟨hrows, hok⟩ := accepted_iff.mp (haccepted s' rfl)
    have hat : ∀ o', o' ∈ rowsAt s' userId p → o' = o := by
      intro o' ho'
      rw [hrows] at ho'
      exact List.mem_singleton.mp ho'
    have hfound : o ∈ rowsAt s' userId p := by
      rw [hrows]
      exact List.mem_singleton.mpr rfl
    obtain ⟨ho, hsel⟩ := Table.mem_find.mp hfound
    simp only [Bool.and_eq_true, beq_iff_eq] at hsel
    obtain ⟨o₀, ho₀, rfl⟩ := (hout o).mp ho
    have htxid : p.txid = txid := by
      have hsame := hsel.1.2
      rw [hown o₀ ((hkept o₀).2.1.symm.trans hsel.1.1) ((hkept o₀).1.symm.trans hid)] at hsame
      exact (Option.some.inj hsame).symm
    refine ⟨htxid, fun o₁ ho₁ huser hv => ⟨fun hid₁ => ?_, fun hne htx => ?_⟩⟩
    · -- the row of the action at this vout is the one that was accepted
      have hsame : committed userId id txid stamp o₁ = committed userId id txid stamp o₀ := by
        refine hat _ (Table.mem_find.mpr ⟨(hout _).mpr ⟨o₁, ho₁, rfl⟩, ?_⟩)
        rw [hown o₁ huser hid₁]
        simp [huser, htxid, hv]
      have hpositive : 0 < (committed userId id txid stamp o₀).satoshis := by
        simp only [noSendChangeOk, Bool.and_eq_true, decide_eq_true_eq] at hok
        exact hok.1.2
      rw [← hsame, (hkept o₁).2.2.2] at hpositive
      exact hpositive
    · have hsame : o₁ = committed userId id txid stamp o₀ := by
        refine hat _ (Table.mem_find.mpr ⟨(hout _).mpr ⟨o₁, ho₁, (hother o₁ hne).symm⟩, ?_⟩)
        simp [huser, htx, htxid, hv]
      exact hne (hsame ▸ hid)
  · rintro ⟨htxid, hrows⟩
    obtain ⟨o, ho, hid, hv, hcoin⟩ := hplanned.change p.vout hvout
    have huser : o.userId = userId := hcoin.userId
    have hstored := hown o huser hid
    have hpositive := (hrows o ho huser hv).1 hid
    refine ⟨committed userId id txid stamp o, (hkept o).1.trans hid, ?_, fun later hlater => ?_⟩
    · rw [hstored]
      exact hcoin.change
    · refine accepted_iff.mpr ⟨?_, ?_⟩
      · rw [hlater]
        refine Table.find_singleton ((hout _).mpr ⟨o, ho, rfl⟩) ?_ fun o' ho' hsel => ?_
        · rw [hstored]
          simp [huser, htxid, hv]
        · obtain ⟨o₁, ho₁, rfl⟩ := (hout o').mp ho'
          simp only [Bool.and_eq_true, beq_iff_eq] at hsel
          have huser₁ := (hkept o₁).2.1.symm.trans hsel.1.1
          have hv₁ := (hkept o₁).2.2.1.symm.trans hsel.2
          by_cases hid₁ : o₁.transactionId = id
          · rw [hplanned.distinct o₁ ho₁ o ho hid₁ hid (hv₁.trans hv.symm)]
          · have htx := hsel.1.2
            rw [hother o₁ hid₁, htxid] at htx
            exact absurd htx ((hrows o₁ ho₁ huser₁ hv₁).2 hid₁)
      · have hprovided : o.providedBy = .storage := hcoin.providedBy
        have hpurpose : o.purpose = "change" := hcoin.purpose
        have hbasket : o.basketId = some basketId := hcoin.basketId
        rw [hstored]
        simp [noSendChangeOk, hprovided, hpurpose, hbasket, hpositive]

end Processing

/-! ## The two ways to process an action -/

section Modes

variable {kit : Toolkit} {services : Services} {backend : SigningBackend} {auth random : String}
  {args : ValidCreateActionArgs} {dcr : StorageCreateActionResult} {s₁ s₂ : Store}
  {r : SignerCreateActionResult} {pending : Option PendingSignAction}

/-- What createAction returns after its plan: a record to be signed, or a processed action. -/
theorem finish_returns
    (hrun : (finishCreateAction kit services backend auth random args dcr).run Stmt.exec s₁ =
      (.ok (r, pending), s₂)) :
    (∃ record txid, pending = some record ∧ record.reference = dcr.reference ∧ record.args = args ∧
      r.noSendChange = noSendChange args dcr txid ∧ s₂.outputs = s₁.outputs) ∨
    (pending = none ∧ ∃ signed result,
      (processAndBroadcast kit services auth random (createProcessArgs args dcr.reference signed)
        signed).run Stmt.exec s₁ = (.ok result, s₂) ∧ r.txid = some signed.txid ∧
      r.noSendChange = noSendChange args dcr signed.txid) := by
  unfold finishCreateAction at hrun
  obtain ⟨merged, sm, hm, hrun⟩ := run_bind_ok hrun
  obtain ⟨rfl⟩ : s₁ = sm := (Prod.mk.inj hm).2
  obtain ⟨inputBeef, si, hi, hrun⟩ := run_bind_ok hrun
  rw [run_ofExcept] at hi
  obtain ⟨rfl⟩ : s₁ = si := (Prod.mk.inj hi).2
  obtain ⟨built, sb, hb, hrun⟩ := run_bind_ok hrun
  rw [run_ofExcept] at hb
  obtain ⟨rfl⟩ : s₁ = sb := (Prod.mk.inj hb).2
  obtain ⟨tx, amount, pdi⟩ := built
  dsimp only at hrun
  split at hrun
  · refine .inl ?_
    have hdefer : wp Stmt.exec (deferAction kit args { dcr with inputBeef } tx amount pdi)
        (fun result s' => ∃ record txid, result.2 = some record ∧ record.reference = dcr.reference ∧
          record.args = args ∧ result.1.noSendChange = noSendChange args dcr txid ∧
          s'.outputs = s₁.outputs) (fun _ => True) s₁ := by
      unfold deferAction
      rw [wp_bind]
      refine wp_ofExcept (fun bytes _ => ?_) fun _ _ => trivial
      dsimp only
      rw [wp_bind]
      refine wp_ofExcept (fun txid _ => ?_) fun _ _ => trivial
      rw [wp_bind]
      refine wp_ofExcept (fun beef _ => ?_) fun _ _ => trivial
      rw [wp_bind]
      refine wp_ofExcept (fun signable _ => ?_) fun _ _ => trivial
      rw [wp_bind, wp_ask]
      cases s₁.transactions.first (·.reference == dcr.reference) with
      | none => exact ⟨_, txid, rfl, rfl, rfl, rfl, rfl⟩
      | some row =>
        rw [wp_bind]
        exact wp_exec' (fun n s' hexec => ⟨_, txid, rfl, rfl, rfl, rfl, exec_outputs hexec nofun⟩)
          fun _ _ => trivial
    exact wp_ok hdefer hrun
  · refine .inr ?_
    unfold completeAction at hrun
    obtain ⟨signed, ss, hs, hrun⟩ := run_bind_ok hrun
    rw [run_ofExcept] at hs
    obtain ⟨rfl⟩ : s₁ = ss := (Prod.mk.inj hs).2
    obtain ⟨result, sp, hp, hrun⟩ := run_bind_ok hrun
    obtain ⟨hvalue, rfl⟩ := Prod.mk.inj hrun
    obtain ⟨rfl, rfl⟩ := Prod.mk.inj (Except.ok.inj hvalue)
    exact ⟨rfl, signed, result, hp, rfl, rfl⟩

/-- Nothing was done to the action: its row has its place under the reference, and its outputs are
those of the plan. -/
structure Untouched (action : Transaction) (planned later : Store) : Prop where
  row : ∀ t ∈ later.transactions, t.reference = action.reference →
    t.transactionId = action.transactionId ∧ t.userId = action.userId
  outputs : ∀ o, o.transactionId = action.transactionId →
    (o ∈ later.outputs ↔ o ∈ planned.outputs)

/-- The action is processed under a txid: at once, from the store of the plan on, or by a later
signAction that does not send it either, with any spends. -/
inductive ProcessedAs (kit : Toolkit) (auth : String) (args : ValidCreateActionArgs)
    (action : Transaction) (s₁ s₂ : Store) (r : SignerCreateActionResult) :
    Option PendingSignAction → String → Store → Store → Prop
  | atOnce {txid : String} (isNewTx : args.isNewTx = true) (named : r.txid = some txid) :
      ProcessedAs kit auth args action s₁ s₂ r none txid s₁ s₂
  | signed {record : PendingSignAction} {services : Services} {backend : SigningBackend}
      {random : String} {signArgs : ValidSignActionArgs} {result : SignerSignActionResult}
      {txid : String} {before after : Store} (untouched : Untouched action s₂ before)
      (isNewTx : signArgs.isNewTx = true)
      (isNoSend : signArgs.isNoSend.getD args.isNoSend = true)
      (ran : (signerSignAction kit services backend auth random signArgs record).run Stmt.exec before =
        (.ok result, after)) (named : result.txid = some txid) :
      ProcessedAs kit auth args action s₁ s₂ r (some record) txid before after

end Modes

/-- Every outpoint that a noSend createAction returns is, once the action is processed, accepted by
the validation of the user's next noSend createAction, as a change output of this action, exactly
when it has the txid of the processing, a positive amount and no other output of the user there. -/
theorem no_send_change_usable (kit : Toolkit) (services : Services) (backend : SigningBackend)
    (entropy : Entropy) (auth random : String) (args : ValidCreateActionArgs) (s s₁ s₂ : Store)
    (dcr : StorageCreateActionResult) (r : SignerCreateActionResult)
    (pending : Option PendingSignAction) (hnoSend : args.isNoSend = true)
    (hplan : (createAction kit.sdk entropy auth (toStorageArgs args)).run Stmt.exec s = (.ok dcr, s₁))
    (hcreate : (signerCreateAction kit services backend entropy auth random args).run Stmt.exec s =
      (.ok (r, pending), s₂))
    (action : Transaction) (haction : action ∈ s₁.transactions)
    (hreference : action.reference = dcr.reference) (basket : OutputBasket)
    (hbasket : basket ∈ s.outputBaskets) (hown : basket.userId = action.userId)
    (hname : basket.name = "default") (hu32 : ∀ o ∈ s₁.outputs, o.vout < 4294967296) (txid : String)
    (before after : Store)
    (hprocessed : ProcessedAs kit auth args action s₁ s₂ r pending txid before after) :
    ∀ p ∈ r.noSendChange,
      Usable after action.userId basket.basketId action.transactionId (parseOutpointString p) ↔
        Lands before action.userId action.transactionId txid (parseOutpointString p) := by
  have hplanned := createAction_change hplan haction hreference hbasket hown hname
  have hfinish : (finishCreateAction kit services backend auth random args dcr).run Stmt.exec s₁ =
      (.ok (r, pending), s₂) := by
    rw [← hcreate]
    exact (run_bind_of_ok hplan).symm
  -- what an outpoint of the list is
  have hpoint : ∀ txid p, p ∈ noSendChange args dcr txid →
      (parseOutpointString p).vout ∈ dcr.noSendChangeOutputVouts.getD [] := by
    intro txid p hp
    unfold noSendChange at hp
    rw [if_pos hnoSend] at hp
    obtain ⟨v, hv, rfl⟩ := List.mem_map.mp hp
    obtain ⟨o, ho, -, rfl, -⟩ := hplanned.change v hv
    rw [parseOutpointString_text txid (hu32 o ho)]
    exact hv
  have hunique : ∀ t ∈ s₁.transactions, t.reference = action.reference → t = action :=
    fun t ht href => s₁.unique.transactions.eq ht haction href
  intro p hp
  rcases finish_returns hfinish with ⟨record, unsigned, rfl, href, hargs, hlist, hout⟩ |
    ⟨rfl, signed, result, hrun, htxid, hlist⟩
  · rw [hlist] at hp
    cases hprocessed with
    | signed untouched isNewTx isNoSend ran named =>
      rename_i services' backend' random' signArgs result
      -- the plan is still there when the action is signed
      have hstill : ChangePlanned action.userId action.transactionId basket.basketId
          (dcr.noSendChangeOutputVouts.getD []) before := by
        have hsame : ∀ o, o.transactionId = action.transactionId →
            (o ∈ before.outputs ↔ o ∈ s₁.outputs) := by
          intro o hid
          rw [untouched.outputs o hid, hout]
        refine ⟨fun o ho o' ho' hid hid' hvout => ?_, fun v hv => ?_⟩
        · exact hplanned.distinct o ((hsame o hid).mp ho) o' ((hsame o' hid').mp ho') hid hid' hvout
        · obtain ⟨o, ho, hid, hrest⟩ := hplanned.change v hv
          exact ⟨o, (hsame o hid).mpr ho, hid, hrest⟩
      unfold signerSignAction at ran
      obtain ⟨signed, ss, hs, hrun⟩ := run_bind_ok ran
      rw [run_ofExcept] at hs
      obtain ⟨rfl⟩ : before = ss := (Prod.mk.inj hs).2
      obtain ⟨processed, sp, hprocess, hlast⟩ := run_bind_ok hrun
      obtain ⟨hvalue, rfl⟩ := Prod.mk.inj hlast
      obtain rfl := Except.ok.inj hvalue
      obtain rfl : signed.txid = txid := Option.some.inj named
      obtain ⟨t, ht, F, stamp, htref, hF, houts⟩ := process_outputs hprocess
        (by rw [← hargs] at isNoSend; exact isNoSend) isNewTx
      obtain rfl : signed.txid = F := Option.some.inj hF
      obtain ⟨hid, huser⟩ := untouched.row t ht
        ((Option.some.inj htref).symm.trans (href.trans hreference.symm))
      rw [hid, huser] at houts
      exact usable_iff hstill (hpoint unsigned p hp) houts
  · rw [hlist] at hp
    cases hprocessed with
    | atOnce isNewTx named =>
      obtain rfl : signed.txid = txid := Option.some.inj (htxid.symm.trans named)
      obtain ⟨t, ht, F, stamp, htref, hF, houts⟩ := process_outputs hrun hnoSend isNewTx
      obtain rfl : signed.txid = F := Option.some.inj hF
      rw [hunique t ht ((Option.some.inj htref).symm.trans hreference.symm)] at houts
      exact usable_iff hplanned (hpoint _ p hp) houts

/-- The payer's payment, held back. -/
def heldArgs : ValidCreateActionArgs := { Sample.payArgs with isNoSend := true }

def heldPlan : Except WalletError StorageCreateActionResult × Store :=
  (createAction Sample.kit.sdk Sample.entropy Sample.alice (toStorageArgs heldArgs)).run Stmt.exec
    Sample.payer.store

/-- The payer's call. -/
def hold (args : ValidCreateActionArgs) :
    Except WalletError (SignerCreateActionResult × Option PendingSignAction) × Store :=
  (signerCreateAction Sample.kit (Sample.answering "success") Sample.backend Sample.entropy Sample.alice
    "" args).run Stmt.exec Sample.payer.store

theorem heldPlan_facts :
    heldPlan.1.toOption.map (·.reference) = some Sample.entropy.reference ∧
      (∃ t ∈ heldPlan.2.transactions, t.transactionId = 2 ∧ t.userId = 1 ∧
        t.reference = Sample.entropy.reference) ∧
      (∃ b ∈ Sample.payer.store.outputBaskets, b.basketId = 1 ∧ b.userId = 1 ∧ b.name = "default") ∧
      ∀ o ∈ heldPlan.2.outputs, o.vout < 4294967296 ∧ (o.userId = 1 → o.vout = 1 →
        (o.transactionId = 2 → 0 < o.satoshis) ∧
          (o.transactionId ≠ 2 → o.txid ≠ some Sample.paymentTxid)) := by
  decide +kernel

theorem hold_result :
    (hold heldArgs).1.toOption.map (fun r => (r.1.noSendChange, r.2.isNone, r.1.txid)) =
      some ([Sample.paymentTxid ++ "." ++ toString 1], true, some Sample.paymentTxid) := by
  decide +kernel

/-- The change of a payment that is held back and signed at once can be spent by the next one. -/
theorem no_send_change_usable_payment :
    Usable (hold heldArgs).2 1 1 2 { txid := Sample.paymentTxid, vout := 1 } := by
  obtain ⟨hreference, ⟨action, hmem, hid, huser, href⟩, ⟨basket, hbasket, hbid, hbuser, hbname⟩,
    hout⟩ := heldPlan_facts
  have hresult := hold_result
  rcases hplan : heldPlan with ⟨e | dcr, s₁⟩
  · rw [hplan] at hreference
    cases hreference
  rcases hcreate : hold heldArgs with ⟨e | ⟨r, pending⟩, s₂⟩
  · rw [hcreate] at hresult
    cases hresult
  rw [hplan] at hreference hmem hout
  rw [hcreate] at hresult
  obtain ⟨hlist, hnone, htxid⟩ : r.noSendChange = [Sample.paymentTxid ++ "." ++ toString 1] ∧
      pending.isNone = true ∧ r.txid = some Sample.paymentTxid := by
    have hparts := Option.some.inj hresult
    simpa only [Prod.mk.injEq] using hparts
  obtain rfl : pending = none := Option.isNone_iff_eq_none.mp hnone
  have hparse : parseOutpointString (Sample.paymentTxid ++ "." ++ toString 1) = ⟨Sample.paymentTxid, 1⟩ :=
    parseOutpointString_text Sample.paymentTxid (by decide)
  have husable := no_send_change_usable Sample.kit (Sample.answering "success") Sample.backend
    Sample.entropy Sample.alice "" heldArgs Sample.payer.store s₁ s₂ dcr r none rfl hplan hcreate action
    hmem (href.trans (Option.some.inj hreference).symm) basket hbasket (hbuser.trans huser.symm) hbname
    (fun o ho => (hout o ho).1) Sample.paymentTxid s₁ s₂ (.atOnce rfl htxid)
    (Sample.paymentTxid ++ "." ++ toString 1) (by rw [hlist]; exact List.mem_singleton.mpr rfl)
  rw [hparse, hid, huser, hbid] at husable
  exact husable.mpr ⟨rfl, fun o ho => (hout o ho).2⟩

/-- The deferred payment and its signing, both held back. -/
def heldThenSigned : Option (List String × Store) :=
  match hold { heldArgs with isSignAction := true } with
  | (.ok (r, some record), s₂) =>
    match (signerSignAction Sample.kit (Sample.answering "success") Sample.backend Sample.alice ""
      Sample.signArgs record).run Stmt.exec s₂ with
    | (.ok _, after) => some (r.noSendChange, after)
    | (.error _, _) => none
  | _ => none

theorem heldThenSigned_result :
    heldThenSigned.map (fun r => (r.1, (rowsAt r.2 1 ⟨Sample.unsignedTxid, 1⟩).isEmpty)) =
      some ([Sample.unsignedTxid ++ "." ++ toString 1], true) := by
  decide +kernel

/-- The list names the txid of the unsigned transaction, and after the signing no row has it: the next
noSend createAction refuses the outpoint. -/
theorem no_send_change_refused :
    ∃ after, heldThenSigned = some ([Sample.unsignedTxid ++ "." ++ toString 1], after) ∧
      ∀ o, ¬ Accepted after 1 1 (parseOutpointString (Sample.unsignedTxid ++ "." ++ toString 1)) o := by
  obtain ⟨⟨list, after⟩, hrun, hresult⟩ := Option.map_eq_some_iff.mp heldThenSigned_result
  obtain ⟨rfl, hempty⟩ := Prod.mk.inj hresult
  refine ⟨after, hrun, fun o haccepted => ?_⟩
  have hparse : parseOutpointString (Sample.unsignedTxid ++ "." ++ toString 1) = ⟨Sample.unsignedTxid, 1⟩ :=
    parseOutpointString_text Sample.unsignedTxid (by decide)
  have hone := (accepted_iff.mp haccepted).1
  rw [hparse, List.isEmpty_iff.mp hempty] at hone
  cases hone

end WalletToolbox.Signer
