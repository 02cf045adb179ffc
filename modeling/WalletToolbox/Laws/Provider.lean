import WalletToolbox.Laws.Statements

/-! # What the composite storage calls do

Loops of plain statements amount to one rewriting of a table, and the calls that only find or
add a row write one table. -/

namespace WalletToolbox.Storage

open WalletToolbox.Lib
open WalletToolbox.Lib.Prog hiding pure exec

variable {s : Store} {E : Store → Prop} {γ : Type}

/-! ## Result sets -/

/-- A sequence of checks that passes is two checks that pass. -/
theorem except_bind_ok {α β : Type} {x : Except WalletError α} {f : α → Except WalletError β} {b : β}
    (h : (x >>= f) = .ok b) : ∃ a, x = .ok a ∧ f a = .ok b := by
  cases x with
  | error e => cases h
  | ok a => exact ⟨a, rfl, h⟩

theorem verifyOneOrNone_ok {α : Type} {rows : List α} {found : Option α}
    (h : verifyOneOrNone rows = .ok found) : rows = found.toList := by
  match rows with
  | [] => cases h; rfl
  | [a] => cases h; rfl
  | _ :: _ :: _ => cases h

/-- At most one row, so the first one decides. -/
theorem verifyOneOrNone_first {α : Type} [Keyed α] {t : Table α} {p : α → Bool} {found : Option α}
    (h : verifyOneOrNone (t.find p) = .ok found) : found = t.first p := by
  have hrows := verifyOneOrNone_ok h
  rw [Table.first_eq_head, hrows]
  cases found <;> rfl

theorem verifyOneOrNone_unique {α : Type} [Keyed α] {t : Table α} {p : α → Bool}
    {found : Option α} (h : verifyOneOrNone (t.find p) = .ok found) {a : α} (ha : a ∈ t)
    (hp : p a = true) : found = some a := by
  have hmem : a ∈ t.find p := Table.mem_find.mpr ⟨ha, hp⟩
  rw [verifyOneOrNone_ok h] at hmem
  cases found with
  | none => cases hmem
  | some b =>
    rw [List.mem_singleton.mp hmem]

theorem verifyOne_ok {α : Type} {xs : List α} {a : α} (h : verifyOne xs = .ok a) : xs = [a] := by
  match xs, h with
  | [x], h => simpa [verifyOne] using h

/-! ## Loops of plain statements -/

/-- A loop of plain statements leaves what applying them in turn leaves. -/
theorem wp_forM_plain {xs : List γ} {w : γ → Stmt} {Q : Unit → Store → Prop}
    (hw : ∀ x ∈ xs, (w x).Plain)
    (h : ∀ s' : Store, s'.toTables = xs.foldl (fun d x => ((w x).apply d).2) s.toTables → Q () s') :
    wp Stmt.exec (forM xs fun x => exec' (w x)) Q E s := by
  induction xs generalizing s with
  | nil => exact h s rfl
  | cons x xs ih =>
    rw [List.forM_cons, wp_bind]
    refine wp_exec'_plain (hw x (by simp)) fun s₁ h₁ => ih (fun y hy => hw y (by simp [hy])) ?_
    intro s' hs'
    exact h s' (by rw [hs', h₁, List.foldl_cons])

/-- Writing a partial output twice is writing it once. -/
theorem OutputPartial.apply_apply (p : OutputPartial) (now : Nat) (o : Output) :
    p.apply now (p.apply now o) = p.apply now o := by
  have hor : ∀ {α : Type} (a b : Option α), a.or (a.or b) = a.or b := by
    intro α a b; cases a <;> rfl
  have hget : ∀ {α : Type} (a : Option α) (b : α), a.getD (a.getD b) = a.getD b := by
    intro α a b; cases a <;> rfl
  have hid : ∀ a b : Option Nat, setId a (setId a b) = setId a b := by
    intro a b
    rcases a with _ | _ | n <;> rfl
  simp only [OutputPartial.apply, hor, hget, hid]
  by_cases ht : p.spendable = some true <;> simp [ht, hid]

theorem TransactionPartial.apply_apply (p : TransactionPartial) (now : Nat) (t : Transaction) :
    p.apply now (p.apply now t) = p.apply now t := by
  have hor : ∀ {α : Type} (a b : Option α), a.or (a.or b) = a.or b := by
    intro α a b; cases a <;> rfl
  have hget : ∀ {α : Type} (a : Option α) (b : α), a.getD (a.getD b) = a.getD b := by
    intro α a b; cases a <;> rfl
  simp only [TransactionPartial.apply, hor, hget]

/-- Updating the outputs of a list of ids one after another updates them at once. -/
theorem foldl_updateOutput (d : Tables) (p : OutputPartial) (ids : List Nat) :
    ids.foldl (fun d i => ((Stmt.updateOutput i p).apply d).2) d =
      { d with
        outputs := d.outputs.update (fun r => ids.contains r.outputId) (p.apply d.now)
          fun _ => rfl } := by
  have hfold : ids.foldl (fun d i => ((Stmt.updateOutput i p).apply d).2) d =
      { d with
        outputs := ids.foldl (fun t i => t.update (fun r => key r == i) (p.apply d.now)
          fun _ => rfl) d.outputs } := by
    induction ids generalizing d with
    | nil => rfl
    | cons i ids ih => exact ih ((Stmt.updateOutput i p).apply d).2
  rw [hfold]
  exact congrArg (fun t => { d with outputs := t }) (Table.foldl_update (p.apply_apply d.now))

theorem foldl_updateTransaction (d : Tables) (p : TransactionPartial) (ids : List Nat) :
    ids.foldl (fun d i => ((Stmt.updateTransaction i p).apply d).2) d =
      { d with
        transactions := d.transactions.update (fun r => ids.contains r.transactionId) (p.apply d.now)
          fun _ => rfl } := by
  have hfold : ids.foldl (fun d i => ((Stmt.updateTransaction i p).apply d).2) d =
      { d with
        transactions := ids.foldl (fun t i => t.update (fun r => key r == i) (p.apply d.now)
          fun _ => rfl) d.transactions } := by
    induction ids generalizing d with
    | nil => rfl
    | cons i ids ih => exact ih ((Stmt.updateTransaction i p).apply d).2
  rw [hfold]
  exact congrArg (fun t => { d with transactions := t }) (Table.foldl_update (p.apply_apply d.now))

/-! ## Status and release -/

theorem wp_updateTransactionStatus {txid : String} {status : TransactionStatus}
    {Q : Unit → Store → Prop}
    (hnone : s.transactions.first (·.txid == some txid) = none → E s)
    (hsome : ∀ t, s.transactions.first (·.txid == some txid) = some t →
      ∀ s' : Store, s'.toTables =
        ((Stmt.updateTransaction t.transactionId { status := some status }).apply s.toTables).2 →
      Q () s') :
    wp Stmt.exec (updateTransactionStatus txid status) Q E s := by
  unfold updateTransactionStatus
  rw [wp_bind, wp_ask]
  cases hfirst : s.transactions.first (·.txid == some txid) with
  | none => exact hnone hfirst
  | some t =>
    refine wp_exec'_plain ?_ (hsome t hfirst)
    exact rfl

theorem wp_releaseInputsSpentBy {ids : List Nat} {t : Nat} {Q : Nat → Store → Prop}
    (h : ∀ n, ∀ s' : Store, s'.toTables =
      ((Stmt.releaseInputsSpentBy ids t).apply s.toTables).2 → Q n s') :
    wp Stmt.exec (releaseInputsSpentBy ids t) Q E s := by
  unfold releaseInputsSpentBy
  split
  · rename_i hempty
    rw [wp_pure]
    refine h 0 s ?_
    have hnil : ids = [] := List.isEmpty_iff.mp hempty
    have hid : s.outputs.update (releasable ids t) (release s.now) (fun _ => rfl) = s.outputs :=
      Table.update_none fun o _ ho => by simp [releasable, hnil] at ho
    exact (congrArg (fun x => { s.toTables with outputs := x }) hid).symm
  · refine wp_exec_plain ?_ (h _)
    exact trivial

/-- `restore_consumed_inputs` frees exactly the outputs that the transaction claims. -/
theorem wp_restoreConsumedInputs {t : Nat} {Q : Nat → Store → Prop}
    (h : ∀ n, ∀ s' : Store, s'.toTables =
      { s.toTables with
        outputs := s.outputs.update (fun o => o.spentBy == some t) (release s.now) fun _ => rfl } →
      Q n s') :
    wp Stmt.exec (restoreConsumedInputs t) Q E s := by
  unfold restoreConsumedInputs
  rw [wp_bind, wp_ask]
  refine wp_releaseInputsSpentBy fun n s' hs' => h n s' (hs'.trans ?_)
  refine congrArg (fun x => { s.toTables with outputs := x }) (Table.update_congr fun o ho => ?_)
  have hkey := Table.contains_key_find (p := fun o : Output => o.spentBy == some t) ho
  have hsel : releasable ((s.outputs.find fun o => o.spentBy == some t).map (·.outputId)) t o =
      (o.spentBy == some t) := by
    unfold releasable
    rw [show ((s.outputs.find fun o => o.spentBy == some t).map (·.outputId)).contains o.outputId =
      (o.spentBy == some t) from hkey]
    cases hb : o.spentBy == some t <;> simp
  rw [hsel]

/-! ## Calls that find or add a row -/

section FindOrInsert

variable {K : Stmt → Prop}

theorem emits_exec' {w : Stmt} (h : K w) : (exec' w).Emits K :=
  Emits.bind (Emits.exec h) fun _ => Emits.pure ()

theorem emits_ignore {α : Type} {p : StorageProg α} (h : p.Emits K) : (ignore p).Emits K :=
  Emits.bind (Emits.attempt h) fun _ => Emits.pure ()

theorem emits_findUserByIdentityKey (identityKey : String) :
    (findUserByIdentityKey identityKey).Emits K :=
  Emits.bind (Emits.ask _) fun _ => Emits.ofExcept _

theorem emits_findOrInsertUser (identityKey : String) (hK : ∀ u, K (.insertUser u)) :
    (findOrInsertUser identityKey).Emits K := by
  refine Emits.bind (emits_findUserByIdentityKey _) fun found => ?_
  cases found with
  | some user => exact Emits.pure _
  | none =>
    exact Emits.bind (Emits.ask _) fun _ => Emits.bind (Emits.exec (hK _)) fun _ => Emits.pure _

theorem emits_findOrInsertOutputBasket (userId : Nat) (name : String)
    (hK : ∀ b, K (.insertOutputBasket b)) : (findOrInsertOutputBasket userId name).Emits K := by
  refine Emits.bind (Emits.ask _) fun _ => Emits.bind (Emits.ofExcept _) fun found => ?_
  cases found with
  | some basket => exact Emits.pure _
  | none =>
    exact Emits.bind (Emits.ask _) fun _ => Emits.bind (Emits.exec (hK _)) fun _ => Emits.pure _

theorem emits_findOrInsertTxLabel (userId : Nat) (label : String)
    (hK : ∀ l, K (.insertTxLabel l)) : (findOrInsertTxLabel userId label).Emits K := by
  refine Emits.bind (Emits.ask _) fun _ => Emits.bind (Emits.ofExcept _) fun found => ?_
  cases found with
  | some txLabel => exact Emits.pure _
  | none =>
    exact Emits.bind (Emits.ask _) fun _ => Emits.bind (Emits.exec (hK _)) fun _ => Emits.pure _

theorem emits_findOrInsertOutputTag (userId : Nat) (tag : String)
    (hK : ∀ t, K (.insertOutputTag t)) : (findOrInsertOutputTag userId tag).Emits K := by
  refine Emits.bind (Emits.ask _) fun _ => Emits.bind (Emits.ofExcept _) fun found => ?_
  cases found with
  | some outputTag => exact Emits.pure _
  | none =>
    exact Emits.bind (Emits.ask _) fun _ => Emits.bind (Emits.exec (hK _)) fun _ => Emits.pure _

end FindOrInsert

end WalletToolbox.Storage
