import Mathlib.Algebra.Order.BigOperators.Group.List
import Mathlib.Algebra.Order.Ring.Int
import WalletToolbox.Laws.InternalizeRows

/-! # Internalized coins: how they can be spent and what is reported of them

A payment that is merged with a row from elsewhere moves the row to the default basket without the
derivation of its key, so the row is spendable only if it happened to carry it.
The amount a call returns is the change of the balance up to the outputs that the caller inserts
into the default basket by name, which are not counted. -/

namespace WalletToolbox.Storage

open WalletToolbox.Lib
open WalletToolbox.Lib.Prog hiding pure exec

variable {sdk : Sdk} {tracker : ChainTracker} {s s' : Store} {userId : Nat}
  {args : StorageInternalizeActionArgs} {c : Internalizing} {d : OutputBasket}

/-! ## Payments -/

/-- A row of a payment as signing reads it later. -/
structure PaidIn (s : Store) (userId : Nat) (sender : String) (pre suf : Bytes) (o : Output) :
    Prop where
  basket : inDefaultBasket s userId o = true
  change : o.change = true
  sender : o.senderIdentityKey = some sender
  derivationPrefix : o.derivationPrefix = some (base64Encode pre)
  derivationSuffix : o.derivationSuffix = some (base64Encode suf)

/-- The rows named by payments are spendable, other than those that were change before. -/
def PaymentsSpendable (s s' : Store) (userId : Nat) (txid : String) (specs : List InternalizeOutput) :
    Prop :=
  ∀ i sender pre suf, .walletPayment i sender pre suf ∈ specs → ∀ o' ∈ s'.outputs,
    namedBy userId txid i o' = true →
    (∀ o ∈ s.outputs, o.outputId = o'.outputId → inDefaultBasket s userId o = false) →
    PaidIn s' userId sender pre suf o'

/-- The rows known before that payments name outside the default basket are rows of a transaction
that the user holds, and they carry the derivation of the payment already. -/
def KnownByDerivation (s : Store) (userId : Nat) (txid : String) (specs : List InternalizeOutput) :
    Prop :=
  ∀ i sender pre suf, .walletPayment i sender pre suf ∈ specs → ∀ o ∈ s.outputs,
    namedBy userId txid i o = true → inDefaultBasket s userId o = false →
    holdsTransaction s userId txid = true ∧ o.derivationPrefix = some (base64Encode pre) ∧
      o.derivationSuffix = some (base64Encode suf)

theorem OutputPartial.apply_basketId {p : OutputPartial} {basketId : Nat}
    (h : p.basketId = some basketId) (hpos : 0 < basketId) (now : Nat) (o : Output) :
    (p.apply now o).basketId = some basketId := by
  obtain ⟨n, rfl⟩ : ∃ n, basketId = n + 1 := ⟨basketId - 1, by omega⟩
  simp only [OutputPartial.apply, h, setId]

namespace TookOver

/-- Before the call and after it the rows that a specification names are found by one query. -/
theorem turn (h : TookOver sdk tracker s s' userId args c d) {spec : InternalizeOutput}
    (hspec : spec ∈ args.outputs) :
    ∃ b ∈ s'.outputBaskets, b.userId = userId ∧ b.name = spec.basketName ∧
      let rows := s.outputs.find (namedBy userId c.subject.txid spec.index)
      let rows' := s'.outputs.find (namedBy userId c.subject.txid spec.index)
      (∃ row, AddedRow c spec b.basketId row ∧ (c.isMerge = true → rows = []) ∧
          rows' = rows ++ [row]) ∨
        (∃ o, c.isMerge = true ∧ rows = [o] ∧ o.basketId = some b.basketId ∧ rows' = rows) ∨
        ∃ o p now, c.isMerge = true ∧ rows = [o] ∧ MergesRow spec b.basketId p ∧
          rows' = [OutputPartial.apply p now o] := by
  obtain ⟨b, hb, huser, hname, u, u', htaken, hbefore, hafter⟩ := h.turns.turn_of_mem h.nodup hspec
  have hown := htaken.find_own
  rw [hbefore, ← hafter] at hown
  rw [h.prepared.user] at hown
  exact ⟨b, hb, huser.trans h.prepared.user, hname, hown⟩

/-- The rows named by payments come out spendable when those known before carry the derivation. -/
theorem spendable (h : TookOver sdk tracker s s' userId args c d)
    (hknown : KnownByDerivation s userId c.subject.txid args.outputs) :
    PaymentsSpendable s s' userId c.subject.txid args.outputs := by
  intro i sender pre suf hspec o' ho' hnamed hfresh
  obtain ⟨b, hb, huser, hname, hrows⟩ := h.turn hspec
  have hbd : b.basketId = d.basketId := (h.basketId_eq hb huser).mpr hname
  have hmem : o' ∈ s'.outputs.find (namedBy userId c.subject.txid i) := Table.mem_find.mpr ⟨ho', hnamed⟩
  have hbasket : ∀ o, o.basketId = some b.basketId → inDefaultBasket s' userId o = true := by
    intro o ho
    rw [h.inDefault_after, ho, hbd, BEq.rfl]
  rcases hrows with ⟨row, hrow, habsent, hrows'⟩ | ⟨o, -, hrows, hheld, hrows'⟩ |
    ⟨o, p, now, hmerge, hrows, hp, hrows'⟩
  · rw [show (InternalizeOutput.walletPayment i sender pre suf).index = i from rfl] at hrows'
    rw [hrows'] at hmem
    rcases List.mem_append.mp hmem with hold | hnew
    · -- a row that was there is known, so the call merges and finds no row
      obtain ⟨ho, hsel⟩ := Table.mem_find.mp hold
      obtain ⟨hholds, -⟩ := hknown i sender pre suf hspec o' ho hsel (hfresh o' ho rfl)
      rw [show s.outputs.find (namedBy userId c.subject.txid i) = [] from
        habsent (h.isMerge.trans hholds)] at hold
      cases hold
    · obtain rfl := List.mem_singleton.mp hnew
      obtain ⟨hchange, hsender, hpre, hsuf⟩ := hrow.payment _ _ _ _ rfl
      exact ⟨hbasket _ hrow.basketId, hchange, hsender, hpre, hsuf⟩
  · rw [show s'.outputs.find (namedBy userId c.subject.txid i) = [o] from hrows'.trans hrows] at hmem
    obtain rfl := List.mem_singleton.mp hmem
    have ho : o' ∈ s.outputs := (Table.mem_find.mp (hrows ▸ List.mem_singleton.mpr rfl : o' ∈ s.outputs.find _)).1
    have hout := hfresh o' ho rfl
    rw [h.inDefault_before ho, hheld, hbd, BEq.rfl] at hout
    cases hout
  · rw [show s'.outputs.find (namedBy userId c.subject.txid i) = _ from hrows'] at hmem
    obtain rfl := List.mem_singleton.mp hmem
    obtain ⟨ho, hsel⟩ := Table.mem_find.mp (hrows ▸ List.mem_singleton.mpr rfl : o ∈ s.outputs.find _)
    obtain ⟨-, hpre, hsuf⟩ := hknown i sender pre suf hspec o ho hsel (hfresh o ho rfl)
    obtain ⟨hchange, hsender⟩ := hp.payment _ _ _ _ rfl
    refine ⟨hbasket _ (OutputPartial.apply_basketId hp.basketId (Table.key_pos hb) now o), ?_, ?_, hpre, hsuf⟩
    · simp only [OutputPartial.apply, hchange, Option.getD_some]
    · simp only [OutputPartial.apply, hsender, Option.some_or]

/-- A row that a payment names outside the default basket comes out spendable only when it is merged
and carries the derivation. -/
theorem known (h : TookOver sdk tracker s s' userId args c d)
    (hspendable : PaymentsSpendable s s' userId c.subject.txid args.outputs) :
    KnownByDerivation s userId c.subject.txid args.outputs := by
  intro i sender pre suf hspec o ho hnamed hout
  obtain ⟨b, hb, huser, hname, hrows⟩ := h.turn hspec
  have hmem : o ∈ s.outputs.find (namedBy userId c.subject.txid i) := Table.mem_find.mpr ⟨ho, hnamed⟩
  have hnot : o.basketId ≠ some d.basketId := by
    rw [h.inDefault_before ho, beq_eq_false_iff_ne] at hout
    exact hout
  have honly : ∀ o₀ ∈ s.outputs, o₀.outputId = o.outputId → inDefaultBasket s userId o₀ = false := by
    intro o₀ h₀ hid
    rw [Table.eq_of_key_eq h₀ ho hid]
    exact hout
  rcases hrows with ⟨row, hrow, habsent, hrows'⟩ | ⟨o₁, -, hrows, hheld, -⟩ |
    ⟨o₁, p, now, hmerge, hrows, hp, hrows'⟩
  · -- the row is still there as it was, so it is not in the default basket
    have ho' : o ∈ s'.outputs := by
      have hrest : o ∈ s'.outputs.find (namedBy userId c.subject.txid i) := by
        rw [show s'.outputs.find (namedBy userId c.subject.txid i) = _ from hrows']
        exact List.mem_append_left _ hmem
      exact (Table.mem_find.mp hrest).1
    have hbasket := (hspendable i sender pre suf hspec o ho' hnamed honly).basket
    rw [h.inDefault_after, beq_iff_eq] at hbasket
    exact absurd hbasket hnot
  · rw [show s.outputs.find (namedBy userId c.subject.txid i) = _ from hrows] at hmem
    obtain rfl := List.mem_singleton.mp hmem
    rw [(h.basketId_eq hb huser).mpr hname] at hheld
    exact absurd hheld hnot
  · rw [show s.outputs.find (namedBy userId c.subject.txid i) = _ from hrows] at hmem
    obtain rfl := List.mem_singleton.mp hmem
    obtain ⟨ho', hsel'⟩ := Table.mem_find.mp
      (hrows' ▸ List.mem_singleton.mpr rfl : p.apply now o ∈ s'.outputs.find _)
    have hpaid := hspendable i sender pre suf hspec _ ho' hsel' honly
    exact ⟨h.isMerge.symm.trans hmerge, hpaid.derivationPrefix, hpaid.derivationSuffix⟩

end TookOver

/-- Payments are spendable after a call that succeeds exactly when the rows they name outside the
default basket were known with the derivation of the payment. -/
theorem storageInternalizeAction_spendable {beef : Beef} {subject : Subject}
    {r : StorageInternalizeActionResult}
    (hbeef : sdk.parseBeef args.tx = .ok beef) (hsubject : findSubject beef = .ok subject)
    (h : (storageInternalizeAction sdk tracker userId args).run Stmt.exec s = (.ok r, s')) :
    PaymentsSpendable s s' userId subject.txid args.outputs ↔
      KnownByDerivation s userId subject.txid args.outputs := by
  obtain ⟨c, d, htook, -⟩ := storageInternalizeAction_rows h
  obtain rfl : c.beef = beef := Except.ok.inj (htook.prepared.parsed.symm.trans hbeef)
  obtain rfl : c.subject = subject := Except.ok.inj (htook.prepared.subject.symm.trans hsubject)
  exact ⟨htook.known, htook.spendable⟩

/-! ### A payment that was kept in a basket first -/

/-- The payee keeps the mined payment in a basket. -/
def keepInSavings : StorageInternalizeActionArgs :=
  { tx := Sample.minedAtomic, description := "payment", labels := []
    outputs := [.basketInsertion 0 "savings" none []] }

def savingsStore : Store :=
  ((internalizeAction Sample.sdk Sample.tracker Sample.bob keepInSavings).run Stmt.exec .empty).2

theorem savings_isOk : ((storageInternalizeAction Sample.sdk Sample.tracker 1 takeAsChange).run
    Stmt.exec savingsStore).1.isOk = true := by
  decide +kernel

/-- Taken as change afterwards the row is in the default basket without its derivation. -/
theorem savings_not_spendable : ∃ r s',
    (storageInternalizeAction Sample.sdk Sample.tracker 1 takeAsChange).run Stmt.exec savingsStore =
      (.ok r, s') ∧
    ¬PaymentsSpendable savingsStore s' 1 Sample.paymentTxid takeAsChange.outputs := by
  obtain ⟨r, hrun⟩ := run_of_isOk savings_isOk
  refine ⟨r, _, hrun, fun h => ?_⟩
  have hrow : ∃ o ∈ ((storageInternalizeAction Sample.sdk Sample.tracker 1 takeAsChange).run
      Stmt.exec savingsStore).2.outputs.rows, namedBy 1 Sample.paymentTxid 0 o = true ∧
        o.derivationPrefix = none := by decide +kernel
  have hout : ∀ o ∈ savingsStore.outputs.rows, inDefaultBasket savingsStore 1 o = false := by
    decide +kernel
  obtain ⟨o, ho, hnamed, hpre⟩ := hrow
  have hpaid := (h 0 Sample.alice [1, 2, 3, 4] [5, 6, 7, 8] (by simp [takeAsChange]) o ho hnamed
    fun o₀ h₀ _ => hout o₀ h₀).derivationPrefix
  rw [hpre] at hpaid
  cases hpaid

theorem storageInternalizeAction_spendable_savings : ∃ r s',
    (storageInternalizeAction Sample.sdk Sample.tracker 1 takeAsChange).run Stmt.exec savingsStore =
      (.ok r, s') ∧
    (PaymentsSpendable savingsStore s' 1 Sample.paymentTxid takeAsChange.outputs ↔
      KnownByDerivation savingsStore 1 Sample.paymentTxid takeAsChange.outputs) := by
  obtain ⟨r, hrun⟩ := run_of_isOk savings_isOk
  have hbeef : Sample.sdk.parseBeef takeAsChange.tx = .ok Sample.minedBeef := by
    simp only [takeAsChange, Sample.sdk, Sample.parseBeef]
    rw [if_neg (by decide +kernel), if_neg (by decide +kernel), if_pos trivial]
  have hsubject : findSubject Sample.minedBeef =
      .ok ⟨Sample.paymentTxid, { Sample.paymentBeefTx with bumpIndex := some 0, inputTxids := [] },
        Sample.paymentTx⟩ := by
    with_unfolding_all rfl
  exact ⟨r, _, hrun, storageInternalizeAction_spendable hbeef hsubject hrun⟩

/-! ## The balance -/

/-- The sum over the user's outputs of a transaction in the default basket. -/
def defaultBalance (s : Store) (userId : Nat) (txid : String) : Int :=
  ((s.outputs.find fun o => o.userId == userId && o.txid == some txid && inDefaultBasket s userId o).map
    (·.satoshis)).sum

/-- The row that a specification is merged with. -/
def heldRow (s : Store) (userId : Nat) (txid : String) (vout : Nat) : Option Output :=
  if holdsTransaction s userId txid then s.outputs.first (namedBy userId txid vout) else none

/-- What the rows of a specification gain beyond what is counted for it: an output put into the
default basket by name is not counted, and a row that is known with another amount than the
transaction's gains that amount. -/
def miscounted (s : Store) (userId : Nat) (subject : Subject) (spec : InternalizeOutput) : Int :=
  let amount := spec.amount subject.tx
  match spec, heldRow s userId subject.txid spec.index with
  | .walletPayment _ _ _ _, none => 0
  | .walletPayment _ _ _ _, some o => if inDefaultBasket s userId o then 0 else o.satoshis - amount
  | .basketInsertion _ _ _ _, none => if spec.basketName = "default" then amount else 0
  | .basketInsertion _ _ _ _, some o =>
    if spec.basketName = "default" then if inDefaultBasket s userId o then amount else o.satoshis
    else if inDefaultBasket s userId o then amount - o.satoshis else 0

/-- By how much the sum of the counted amounts leaves the range of an `i64`. -/
def overflow (s : Store) (userId : Nat) (subject : Subject) (specs : List InternalizeOutput) : Int :=
  let total := (specs.map (counted (holdsTransaction s userId subject.txid) s userId subject)).sum
  asI64 total - total

/-- What a row weighs in the balance, when `basketId` is the default basket. -/
def weight (userId : Nat) (txid : String) (basketId : Nat) (o : Output) : Int :=
  if o.userId == userId && o.txid == some txid && o.basketId == some basketId then o.satoshis else 0

theorem weight_named {txid : String} {basketId vout : Nat} {o : Output}
    (h : namedBy userId txid vout o = true) :
    weight userId txid basketId o = if o.basketId = some basketId then o.satoshis else 0 := by
  simp only [namedBy, Bool.and_eq_true, beq_iff_eq] at h
  simp [weight, h.1.1, h.1.2]

theorem MergesRow.weight {spec : InternalizeOutput} {txid : String} {basketId target vout : Nat}
    {p : OutputPartial} {o : Output} (hp : MergesRow spec target p) (hpos : 0 < target)
    (h : namedBy userId txid vout o = true) (now : Nat) :
    weight userId txid basketId (p.apply now o) = if target = basketId then o.satoshis else 0 := by
  have hnamed : namedBy userId txid vout (p.apply now o) = true := by
    simpa only [namedBy, OutputPartial.apply, hp.txid, Option.none_or] using h
  rw [weight_named hnamed, OutputPartial.apply_basketId hp.basketId hpos]
  simp only [Option.some.injEq]
  rfl

namespace TookOver

theorem defaultBalance_after (h : TookOver sdk tracker s s' userId args c d) (txid : String) :
    defaultBalance s' userId txid = s'.outputs.total (weight userId txid d.basketId) := by
  rw [defaultBalance, Table.sum_find]
  simp only [h.inDefault_after]
  rfl

theorem defaultBalance_before (h : TookOver sdk tracker s s' userId args c d) (txid : String) :
    defaultBalance s userId txid = s.outputs.total (weight userId txid d.basketId) := by
  rw [defaultBalance, Table.sum_find]
  refine Table.total_congr fun o ho => ?_
  simp only [h.inDefault_before ho]
  rfl

theorem counted_held (h : TookOver sdk tracker s s' userId args c d) (spec : InternalizeOutput) :
    (c.isMerge && heldAsChange s userId c.subject.txid spec.index) =
      (heldRow s userId c.subject.txid spec.index).any (·.basketId == some d.basketId) := by
  rw [h.isMerge, heldRow, h.basketId]
  cases holdsTransaction s userId c.subject.txid
  · rfl
  · exact Bool.true_and _

/-- A new row is counted in full, wherever it goes to the default basket. -/
theorem gain_none (h : TookOver sdk tracker s s' userId args c d) {spec : InternalizeOutput}
    (hrow : heldRow s userId c.subject.txid spec.index = none) :
    counted c.isMerge s userId c.subject spec + miscounted s userId c.subject spec =
      if spec.basketName = "default" then spec.amount c.subject.tx else 0 := by
  have hheld := h.counted_held spec
  rw [hrow, Option.any_none] at hheld
  cases spec with
  | walletPayment i sender pre suf =>
    simp [counted, miscounted, hheld, hrow, InternalizeOutput.basketName]
  | basketInsertion i name custom tags => simp [counted, miscounted, hheld, hrow]

/-- A row that is merged with enters and leaves the balance with its own amount. -/
theorem gain_some (h : TookOver sdk tracker s s' userId args c d) {spec : InternalizeOutput} {o : Output}
    (ho : o ∈ s.outputs) (hrow : heldRow s userId c.subject.txid spec.index = some o) :
    counted c.isMerge s userId c.subject spec + miscounted s userId c.subject spec =
      (if spec.basketName = "default" then o.satoshis else 0) -
        if o.basketId = some d.basketId then o.satoshis else 0 := by
  have hheld := h.counted_held spec
  have hdefault := h.inDefault_before ho
  rw [hrow, Option.any_some] at hheld
  by_cases hin : o.basketId = some d.basketId
  · rw [hin, BEq.rfl] at hheld hdefault
    cases spec with
    | walletPayment i sender pre suf =>
      simp [counted, miscounted, hheld, hrow, hdefault, hin, InternalizeOutput.basketName]
    | basketInsertion i name custom tags =>
      simp only [counted, miscounted, hheld, hrow, hdefault, hin, if_true]
      split <;> omega
  · rw [beq_eq_false_iff_ne.mpr hin] at hheld hdefault
    cases spec with
    | walletPayment i sender pre suf =>
      simp only [counted, miscounted, hheld, hrow, hdefault, hin, InternalizeOutput.basketName,
        Bool.false_eq_true, if_false, if_true]
      omega
    | basketInsertion i name custom tags =>
      simp [counted, miscounted, hheld, hrow, hdefault, hin]

/-- One turn adds to the balance what is counted and what is miscounted. -/
theorem total_turn (h : TookOver sdk tracker s s' userId args c d) {spec : InternalizeOutput}
    {b : OutputBasket} (hb : b ∈ s'.outputBaskets) (huser : b.userId = userId)
    (hname : b.name = spec.basketName) {t t' : Table Output} (hturn : Taken c spec b.basketId t t')
    (hrows : t.find (namedBy userId c.subject.txid spec.index) =
      s.outputs.find (namedBy userId c.subject.txid spec.index)) :
    t'.total (weight userId c.subject.txid d.basketId) =
      t.total (weight userId c.subject.txid d.basketId) +
        (counted c.isMerge s userId c.subject spec + miscounted s userId c.subject spec) := by
  have hbd : b.basketId = d.basketId ↔ spec.basketName = "default" := by
    rw [h.basketId_eq hb huser, hname]
  have hheld : heldRow s userId c.subject.txid spec.index = if c.isMerge then
      (t.find (namedBy userId c.subject.txid spec.index)).head? else none := by
    rw [heldRow, h.isMerge, Table.first_eq_head, hrows]
  have hfind : ∀ o, c.isMerge = true → t.find (namedBy userId c.subject.txid spec.index) = [o] →
      o ∈ t ∧ namedBy userId c.subject.txid spec.index o = true ∧ o ∈ s.outputs ∧
        heldRow s userId c.subject.txid spec.index = some o := by
    intro o hmerge ho
    have hmem : o ∈ t.find (namedBy userId c.subject.txid spec.index) := ho ▸ List.mem_singleton.mpr rfl
    refine ⟨(Table.mem_find.mp hmem).1, (Table.mem_find.mp hmem).2, (Table.mem_find.mp (hrows ▸ hmem)).1, ?_⟩
    rw [hheld, if_pos hmerge, ho, List.head?_cons]
  have huser' := h.prepared.user
  cases hturn with
  | added row hk hrow habsent htable =>
    have hnone : heldRow s userId c.subject.txid spec.index = none := by
      rw [hheld]
      split
      · rename_i hmerge
        rw [← huser', habsent hmerge, List.head?_nil]
      · rfl
    have hnamed : namedBy userId c.subject.txid spec.index (row.stored (t.lastId + 1)) = true := by
      rw [← huser']
      exact hrow.named
    rw [htable, Table.total_insert, weight_named hnamed, h.gain_none hnone, ← hrow.satoshis]
    simp only [Output.stored, hrow.basketId, Option.some.injEq, hbd]
  | held o hmerge hfound hpayment hin htable =>
    rw [huser'] at hfound
    obtain ⟨-, -, ho, hsome⟩ := hfind o hmerge hfound
    obtain ⟨i, sender, pre, suf, rfl⟩ := hpayment
    rw [htable, h.gain_some ho hsome, hin, hbd.mpr rfl]
    simp [InternalizeOutput.basketName]
  | merged o p now hk hmerge hfound hpayment hrow htable =>
    rw [huser'] at hfound
    obtain ⟨hot, hnamed, ho, hsome⟩ := hfind o hmerge hfound
    rw [htable, Table.total_update_key hot, hrow.weight (Table.key_pos hb) hnamed, weight_named hnamed,
      h.gain_some ho hsome]
    simp only [hbd]

/-- The turns add to the balance what is counted and what is miscounted. -/
theorem total_turns (h : TookOver sdk tracker s s' userId args c d) {specs : List InternalizeOutput}
    {t t' : Table Output} (hturns : Turns c s'.outputBaskets specs t t')
    (hnodup : specs.Pairwise fun a b => a.index ≠ b.index)
    (hrows : ∀ spec ∈ specs, t.find (namedBy userId c.subject.txid spec.index) =
      s.outputs.find (namedBy userId c.subject.txid spec.index)) :
    t'.total (weight userId c.subject.txid d.basketId) =
      t.total (weight userId c.subject.txid d.basketId) +
        ((specs.map (counted c.isMerge s userId c.subject)).sum +
          (specs.map (miscounted s userId c.subject)).sum) := by
  induction hturns with
  | nil t => simp
  | cons b hb huser hname hturn _ ih =>
    obtain ⟨hhead, htail⟩ := List.pairwise_cons.mp hnodup
    rw [h.prepared.user] at huser
    have hfirst := h.total_turn hb huser hname hturn (hrows _ List.mem_cons_self)
    have hrest := ih htail fun spec hspec => by
      have hother := hturn.find_other (hhead spec hspec).symm
      rw [h.prepared.user] at hother
      rw [hother, hrows spec (List.mem_cons_of_mem _ hspec)]
    rw [hrest, hfirst]
    simp only [List.map_cons, List.sum_cons]
    omega

/-- The balance grows by what is counted and what is miscounted. -/
theorem balance (h : TookOver sdk tracker s s' userId args c d) :
    defaultBalance s' userId c.subject.txid - defaultBalance s userId c.subject.txid =
      (args.outputs.map (counted c.isMerge s userId c.subject)).sum +
        (args.outputs.map (miscounted s userId c.subject)).sum := by
  rw [h.defaultBalance_after, h.defaultBalance_before,
    h.total_turns h.turns h.nodup fun _ _ => rfl]
  omega

end TookOver

/-- Whether a specification inserts its output into the default basket by name. -/
def InternalizeOutput.intoDefault : InternalizeOutput → Bool
  | .walletPayment _ _ _ _ => false
  | .basketInsertion _ name _ _ => name.isEmpty || name == "default"

/-- The rows that the specifications name carry the amounts of the transaction, and these amounts
are not negative and add up to an `i64`. -/
structure AmountsAgree (s : Store) (userId : Nat) (subject : Subject) (specs : List InternalizeOutput) :
    Prop where
  rows : ∀ spec ∈ specs, ∀ o ∈ s.outputs, namedBy userId subject.txid spec.index o = true →
    o.satoshis = spec.amount subject.tx
  nonneg : ∀ spec ∈ specs, 0 ≤ spec.amount subject.tx
  small : (specs.map (·.amount subject.tx)).sum < 9223372036854775808

section Agree

variable {subject : Subject} {specs : List InternalizeOutput}

theorem heldRow_mem {txid : String} {vout : Nat} {o : Output}
    (h : heldRow s userId txid vout = some o) : o ∈ s.outputs ∧ namedBy userId txid vout o = true := by
  unfold heldRow at h
  split at h
  · exact Table.first_some h
  · cases h

theorem AmountsAgree.miscounted (h : AmountsAgree s userId subject specs) {spec : InternalizeOutput}
    (hspec : spec ∈ specs) :
    miscounted s userId subject spec = if spec.intoDefault then spec.amount subject.tx else 0 := by
  cases hrow : heldRow s userId subject.txid spec.index with
  | none =>
    cases spec with
    | walletPayment i sender pre suf => simp [Storage.miscounted, hrow, InternalizeOutput.intoDefault]
    | basketInsertion i name custom tags =>
      by_cases hempty : name.isEmpty = true <;>
        simp [Storage.miscounted, hrow, InternalizeOutput.intoDefault, InternalizeOutput.basketName, hempty]
  | some o =>
    obtain ⟨ho, hnamed⟩ := heldRow_mem hrow
    have hamount := h.rows spec hspec o ho hnamed
    cases spec with
    | walletPayment i sender pre suf =>
      simp [Storage.miscounted, hrow, InternalizeOutput.intoDefault, hamount]
    | basketInsertion i name custom tags =>
      by_cases hempty : name.isEmpty = true <;>
        simp [Storage.miscounted, hrow, InternalizeOutput.intoDefault, InternalizeOutput.basketName,
          hempty, hamount]

theorem counted_bound {isMerge : Bool} (h : ∀ spec ∈ specs, 0 ≤ spec.amount subject.tx) :
    -(specs.map (·.amount subject.tx)).sum ≤ (specs.map (counted isMerge s userId subject)).sum ∧
      (specs.map (counted isMerge s userId subject)).sum ≤ (specs.map (·.amount subject.tx)).sum := by
  induction specs with
  | nil => simp
  | cons spec specs ih =>
    have hrest := ih fun spec hspec => h spec (List.mem_cons_of_mem _ hspec)
    have hamount := h spec List.mem_cons_self
    have hone : -spec.amount subject.tx ≤ counted isMerge s userId subject spec ∧
        counted isMerge s userId subject spec ≤ spec.amount subject.tx := by
      cases spec <;> simp only [counted] <;> split <;> omega
    rw [List.map_cons, List.map_cons, List.sum_cons, List.sum_cons, Int.neg_add]
    exact ⟨Int.add_le_add hone.1 hrest.1, Int.add_le_add hone.2 hrest.2⟩

theorem asI64_of_small {x : Int} (hlow : -9223372036854775808 < x) (hhigh : x < 9223372036854775808) :
    asI64 x = x := by
  unfold asI64
  omega

/-- With agreeing amounts nothing overflows, and what is miscounted is inserted into the default
basket. -/
theorem AmountsAgree.miscounted_sum (h : AmountsAgree s userId subject specs) :
    (specs.map (Storage.miscounted s userId subject)).sum = overflow s userId subject specs ↔
      ∀ spec ∈ specs, spec.intoDefault = true → spec.amount subject.tx = 0 := by
  have hzero : overflow s userId subject specs = 0 := by
    obtain ⟨hlow, hhigh⟩ : _ ∧ (specs.map (counted (holdsTransaction s userId subject.txid) s userId
      subject)).sum ≤ _ := counted_bound h.nonneg
    have hsmall := h.small
    unfold overflow
    generalize (specs.map (counted (holdsTransaction s userId subject.txid) s userId subject)).sum = total
      at hlow hhigh
    generalize (specs.map (·.amount subject.tx)).sum = amounts at hlow hhigh hsmall
    have hsame : asI64 total = total := asI64_of_small (by omega) (by omega)
    simp only [hsame, Int.sub_self]
  rw [hzero, List.map_congr_left fun spec hspec => h.miscounted hspec]
  constructor
  · intro hsum spec hspec hinto
    have hnonneg : ∀ x ∈ specs.map fun spec => if spec.intoDefault then spec.amount subject.tx else 0,
        0 ≤ x := by
      intro x hx
      obtain ⟨spec, hspec, rfl⟩ := List.mem_map.mp hx
      have hamount := h.nonneg spec hspec
      split <;> omega
    have hall := List.all_zero_of_le_zero_le_of_sum_eq_zero hnonneg hsum
      (List.mem_map.mpr ⟨spec, hspec, rfl⟩)
    rwa [if_pos hinto] at hall
  · intro hall
    refine List.sum_eq_zero fun x hx => ?_
    obtain ⟨spec, hspec, rfl⟩ := List.mem_map.mp hx
    split
    · exact hall spec hspec ‹_›
    · rfl

end Agree

/-- The returned amount is the change of the balance exactly when the miscounted amounts cancel; where
the rows carry the amounts of the transaction, when only empty outputs are inserted into the default
basket by name. -/
theorem storageInternalizeAction_balance {beef : Beef} {subject : Subject}
    {r : StorageInternalizeActionResult}
    (hbeef : sdk.parseBeef args.tx = .ok beef) (hsubject : findSubject beef = .ok subject)
    (h : (storageInternalizeAction sdk tracker userId args).run Stmt.exec s = (.ok r, s')) :
    (r.satoshis = defaultBalance s' userId subject.txid - defaultBalance s userId subject.txid ↔
      (args.outputs.map (miscounted s userId subject)).sum = overflow s userId subject args.outputs) ∧
    (AmountsAgree s userId subject args.outputs →
      (r.satoshis = defaultBalance s' userId subject.txid - defaultBalance s userId subject.txid ↔
        ∀ spec ∈ args.outputs, spec.intoDefault = true → spec.amount subject.tx = 0)) := by
  obtain ⟨c, d, htook, hsatoshis, -⟩ := storageInternalizeAction_rows h
  obtain rfl : c.beef = beef := Except.ok.inj (htook.prepared.parsed.symm.trans hbeef)
  obtain rfl : c.subject = subject := Except.ok.inj (htook.prepared.subject.symm.trans hsubject)
  have hexact : r.satoshis =
      defaultBalance s' userId c.subject.txid - defaultBalance s userId c.subject.txid ↔
      (args.outputs.map (miscounted s userId c.subject)).sum = overflow s userId c.subject args.outputs := by
    rw [htook.balance, hsatoshis, overflow, ← htook.isMerge]
    generalize (args.outputs.map (counted c.isMerge s userId c.subject)).sum = total
    generalize (args.outputs.map (miscounted s userId c.subject)).sum = missed
    generalize asI64 total = returned
    omega
  exact ⟨hexact, fun hagree => hexact.trans hagree.miscounted_sum⟩

/-! ### Change that is inserted into the default basket -/

/-- The payee, who holds the payment as change, inserts it into the default basket. -/
def insertIntoDefault : StorageInternalizeActionArgs :=
  { tx := Sample.minedAtomic, description := "payment", labels := []
    outputs := [.basketInsertion 0 "default" none []] }

theorem insertIntoDefault_isOk : ((storageInternalizeAction Sample.sdk Sample.tracker 1
    insertIntoDefault).run Stmt.exec minedStore).1.isOk = true := by
  decide +kernel

/-- The call reports a loss of 500 satoshis, and the balance stays. -/
theorem insertIntoDefault_miscounts : ∃ r s',
    (storageInternalizeAction Sample.sdk Sample.tracker 1 insertIntoDefault).run Stmt.exec minedStore =
      (.ok r, s') ∧
    r.satoshis ≠ defaultBalance s' 1 Sample.paymentTxid - defaultBalance minedStore 1 Sample.paymentTxid := by
  obtain ⟨r, hrun⟩ := run_of_isOk insertIntoDefault_isOk
  refine ⟨r, _, hrun, ?_⟩
  have hreported : ((storageInternalizeAction Sample.sdk Sample.tracker 1 insertIntoDefault).run
      Stmt.exec minedStore).1.toOption.map (·.satoshis) = some (-500) := by decide +kernel
  have hbalance : defaultBalance ((storageInternalizeAction Sample.sdk Sample.tracker 1
      insertIntoDefault).run Stmt.exec minedStore).2 1 Sample.paymentTxid -
        defaultBalance minedStore 1 Sample.paymentTxid = 0 := by decide +kernel
  rw [hrun] at hreported
  have hreturned : r.satoshis = -500 := Option.some.inj hreported
  rw [hbalance, hreturned]
  decide

/-- Into another basket the 500 satoshis leave the balance, as reported. -/
theorem storageInternalizeAction_balance_moveMined : ∃ r s',
    (storageInternalizeAction Sample.sdk Sample.tracker 1 moveMined).run Stmt.exec minedStore =
      (.ok r, s') ∧
    r.satoshis = -500 ∧
    r.satoshis = defaultBalance s' 1 Sample.paymentTxid -
      defaultBalance minedStore 1 Sample.paymentTxid := by
  obtain ⟨r, hrun⟩ := run_of_isOk moveMined_isOk
  have hreported : ((storageInternalizeAction Sample.sdk Sample.tracker 1 moveMined).run
      Stmt.exec minedStore).1.toOption.map (·.satoshis) = some (-500) := by decide +kernel
  rw [hrun] at hreported
  refine ⟨r, _, hrun, Option.some.inj hreported, ((storageInternalizeAction_balance parseBeef_mined
    findSubject_mined hrun).2 ⟨?_, ?_, ?_⟩).mpr ?_⟩
  all_goals decide +kernel

end WalletToolbox.Storage
