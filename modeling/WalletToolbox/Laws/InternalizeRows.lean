import WalletToolbox.Laws.InternalizeProgress
import WalletToolbox.Lib.Sum

/-! # The outputs that internalizeAction takes over

A call takes its specifications in turn; `Taken` says what one turn does to the table of outputs
and `Turns` what the loop does.
A row is added with everything the payment says, a row that is already there is moved to the basket
without it, and the returned amount is counted before any row is written. -/

namespace WalletToolbox.Storage

open WalletToolbox.Lib
open WalletToolbox.Lib.Prog hiding pure exec

/-- The rows of a user for one output of a transaction. -/
def namedBy (userId : Nat) (txid : String) (vout : Nat) (o : Output) : Bool :=
  o.userId == userId && o.txid == some txid && o.vout == vout

/-- Whether an output is in the user's default basket. -/
def inDefaultBasket (s : Store) (userId : Nat) (o : Output) : Bool :=
  s.outputBaskets.exists? fun b =>
    b.userId == userId && b.name == "default" && o.basketId == some b.basketId

/-- Whether the user holds a transaction. -/
def holdsTransaction (s : Store) (userId : Nat) (txid : String) : Bool :=
  s.transactions.exists? fun t => t.userId == userId && t.txid == some txid

/-- The basket that a specification puts its output in. -/
def InternalizeOutput.basketName : InternalizeOutput → String
  | .walletPayment _ _ _ _ => "default"
  | .basketInsertion _ name _ _ => if name.isEmpty then "default" else name

/-- The amount of the output that a specification names. -/
def InternalizeOutput.amount (spec : InternalizeOutput) (tx : Tx) : Int :=
  TxOutput.amount (outputAt tx spec.index)

variable {sdk : Sdk} {tracker : ChainTracker} {s : Store}

/-! ## One turn -/

/-- A row added for a specification. -/
structure AddedRow (c : Internalizing) (spec : InternalizeOutput) (basketId : Nat) (o : Output) :
    Prop where
  named : namedBy c.userId c.subject.txid spec.index o = true
  basketId : o.basketId = some basketId
  satoshis : o.satoshis = spec.amount c.subject.tx
  payment : ∀ i sender pre suf, spec = .walletPayment i sender pre suf → o.change = true ∧
    o.senderIdentityKey = some sender ∧ o.derivationPrefix = some (base64Encode pre) ∧
    o.derivationSuffix = some (base64Encode suf)

/-- The columns that merging a specification with a row sets. Those of the derivation are not among
them. -/
structure MergesRow (spec : InternalizeOutput) (basketId : Nat) (p : OutputPartial) : Prop where
  basketId : p.basketId = some basketId
  txid : p.txid = none
  payment : ∀ i sender pre suf, spec = .walletPayment i sender pre suf →
    p.change = some true ∧ p.senderIdentityKey = some sender

/-- What one turn does to the outputs, when `basketId` is the basket of the specification. -/
inductive Taken (c : Internalizing) (spec : InternalizeOutput) (basketId : Nat)
    (t t' : Table Output) : Prop
  | added (row : Output) (hk : ∀ n, key (row.stored n) = n) (hrow : AddedRow c spec basketId row)
    (habsent : c.isMerge = true → t.find (namedBy c.userId c.subject.txid spec.index) = [])
    (h : t' = t.insert row.stored hk)
  | held (o : Output) (hmerge : c.isMerge = true)
    (hfound : t.find (namedBy c.userId c.subject.txid spec.index) = [o])
    (hpayment : ∃ i sender pre suf, spec = .walletPayment i sender pre suf)
    (hheld : o.basketId = some basketId) (h : t' = t)
  | merged (o : Output) (p : OutputPartial) (now : Nat)
    (hk : ∀ r, key (p.apply now r) = key r) (hmerge : c.isMerge = true)
    (hfound : t.find (namedBy c.userId c.subject.txid spec.index) = [o])
    (hpayment : ∀ i sender pre suf, spec = .walletPayment i sender pre suf →
      o.basketId ≠ some basketId)
    (hrow : MergesRow spec basketId p)
    (h : t' = t.update (fun r => key r == key o) (p.apply now) hk)

/-- What the loop over the specifications does to the outputs. -/
inductive Turns (c : Internalizing) (baskets : Table OutputBasket) :
    List InternalizeOutput → Table Output → Table Output → Prop
  | nil (t : Table Output) : Turns c baskets [] t t
  | cons {spec : InternalizeOutput} {specs : List InternalizeOutput} {t t₁ t₂ : Table Output}
    (b : OutputBasket) (hb : b ∈ baskets) (huser : b.userId = c.userId)
    (hname : b.name = spec.basketName) (hturn : Taken c spec b.basketId t t₁)
    (hrest : Turns c baskets specs t₁ t₂) : Turns c baskets (spec :: specs) t t₂

theorem Turns.mono {c : Internalizing} {bs bs' : Table OutputBasket} {specs : List InternalizeOutput}
    {t t' : Table Output} (h : Turns c bs specs t t') (hsub : ∀ b ∈ bs, b ∈ bs') :
    Turns c bs' specs t t' := by
  induction h with
  | nil t => exact .nil t
  | cons b hb huser hname hturn _ ih => exact .cons b (hsub b hb) huser hname hturn ih

/-- The outputs are the same and no basket is lost. -/
structure Grown (s s' : Store) : Prop where
  outputs : s'.outputs = s.outputs
  baskets : ∀ b ∈ s.outputBaskets, b ∈ s'.outputBaskets

theorem Grown.refl (s : Store) : Grown s s := ⟨rfl, fun _ hb => hb⟩

theorem Grown.trans {s₁ s₂ s₃ : Store} (h : Grown s₁ s₂) (h' : Grown s₂ s₃) : Grown s₁ s₃ :=
  ⟨h'.outputs.trans h.outputs, fun b hb => h'.baskets b (h.baskets b hb)⟩

/-- A statement that writes neither outputs nor baskets. -/
def Stmt.OffRows (w : Stmt) : Prop :=
  w.target ≠ .outputs ∧ w.target ≠ .outputBaskets

theorem Stmt.OffRows.grown {w : Stmt} {s s' : Store} {n : Nat} (hw : w.OffRows)
    (h : w.exec s = .ok (n, s')) : Grown s s' :=
  ⟨exec_outputs h hw.1, fun b hb => by rw [exec_outputBaskets h hw.2]; exact hb⟩

theorem wp_offRows {α : Type} {p : StorageProg α} (hp : p.Emits Stmt.OffRows) {Q : α → Store → Prop}
    {E : Store → Prop} (hQ : ∀ a s', Grown s s' → Q a s') (hE : ∀ s', Grown s s' → E s') :
    wp Stmt.exec p Q E s := by
  have h : wp Stmt.exec p (fun _ => Grown s) (Grown s) s :=
    hp.wp (fun w s₁ n s₂ hw h₁ h₂ => h₁.trans (hw.grown h₂)) (Grown.refl s)
  exact wp_mono h hQ hE

theorem mem_insertOutputBasket {d : Tables} {r b : OutputBasket} :
    b ∈ ((Stmt.insertOutputBasket r).apply d).2.outputBaskets ↔
      b ∈ d.outputBaskets ∨ b = r.stored (d.outputBaskets.lastId + 1) := by
  simp only [Stmt.apply]
  exact Table.mem_insert

/-- The basket that is found or added is the user's basket of that name. -/
theorem wp_findOrInsertOutputBasket {userId : Nat} {name : String} :
    wp Stmt.exec (findOrInsertOutputBasket userId name)
      (fun b s' => Grown s s' ∧ ∃ row ∈ s'.outputBaskets, row.basketId = b.basketId ∧
        row.userId = userId ∧ row.name = name) (fun _ => True) s := by
  unfold findOrInsertOutputBasket
  rw [wp_bind, wp_ask, wp_bind]
  refine wp_ofExcept (fun found hfound => ?_) fun _ _ => trivial
  cases found with
  | some b =>
    obtain ⟨hb, hsel⟩ := Table.first_some (verifyOneOrNone_first hfound).symm
    rw [Bool.and_eq_true, beq_iff_eq, beq_iff_eq] at hsel
    exact ⟨Grown.refl s, b, hb, rfl, hsel⟩
  | none =>
    simp only [wp_bind, wp_utcNow, wp_pure]
    refine wp_exec (fun n s' h => ?_) fun _ _ => trivial
    obtain ⟨hn, hs'⟩ := exec_eq h
    have hmem : ∀ b, b ∈ s'.outputBaskets ↔ _ := fun b => by rw [hs', mem_insertOutputBasket]
    exact ⟨⟨exec_outputs h (by rintro ⟨⟩), fun b hb => (hmem b).mpr (.inl hb)⟩, _, (hmem _).mpr (.inr rfl),
      hn.symm, rfl, rfl⟩

theorem wp_findMerged {c : Internalizing} {vout : Nat} {Q : Option Output → Store → Prop}
    (hnone : (c.isMerge = true → s.outputs.find (namedBy c.userId c.subject.txid vout) = []) →
      Q none s)
    (hsome : ∀ o, c.isMerge = true →
      s.outputs.find (namedBy c.userId c.subject.txid vout) = [o] → Q (some o) s) :
    wp Stmt.exec (findMerged c vout) Q (fun _ => True) s := by
  unfold findMerged
  split
  · rename_i hmerge
    unfold findOwnOutput
    rw [wp_bind, wp_ask]
    refine wp_ofExcept (fun found hfound => ?_) fun _ _ => trivial
    have hrows : s.outputs.find (namedBy c.userId c.subject.txid vout) = found.toList :=
      verifyOneOrNone_ok hfound
    cases found with
    | none => exact hnone fun _ => hrows
    | some o => exact hsome o hmerge hrows
  · rename_i hmerge
    exact hnone fun h => absurd h hmerge

theorem emits_addTag_offRows {userId id vout : Nat} (tag : String) :
    (addTag userId id vout tag).Emits Stmt.OffRows := by
  refine Emits.bind (emits_findOrInsertOutputTag _ _ fun _ => ⟨nofun, nofun⟩) fun _ =>
    Emits.bind (Emits.ask _) fun _ => Emits.bind (Emits.ofExcept _) fun found => ?_
  cases found with
  | none => exact Emits.pure ()
  | some _ =>
    exact Emits.bind (Emits.ask _) fun _ => emits_ignore (Emits.exec ⟨nofun, nofun⟩)

theorem emits_addLabel_offRows {userId id : Nat} (label : String) :
    (addLabel userId id label).Emits Stmt.OffRows :=
  Emits.bind (emits_findOrInsertTxLabel _ _ fun _ => ⟨nofun, nofun⟩) fun _ =>
    Emits.bind (Emits.ask _) fun _ => emits_ignore (Emits.exec ⟨nofun, nofun⟩)

/-- The call's default basket is the user's basket of that name. -/
def DefaultRow (c : Internalizing) (s : Store) : Prop :=
  ∃ b ∈ s.outputBaskets, b.basketId = c.defaultBasket.basketId ∧ b.userId = c.userId ∧
    b.name = "default"

/-- One turn leaves the outputs that `Taken` says. -/
def Turn (c : Internalizing) (spec : InternalizeOutput) (s s' : Store) : Prop :=
  (∀ b ∈ s.outputBaskets, b ∈ s'.outputBaskets) ∧ ∃ b ∈ s'.outputBaskets, b.userId = c.userId ∧
    b.name = spec.basketName ∧ Taken c spec b.basketId s.outputs s'.outputs

/-- The statement of a turn leaves the outputs it says, and the baskets alone. -/
theorem wp_turn_stmt {w : Stmt} {s : Store} {Q : Unit → Store → Prop} (hw : w.target = .outputs)
    (h : ∀ s' : Store, s'.outputs = (w.apply s.toTables).2.outputs →
      s'.outputBaskets = s.outputBaskets → Q () s') :
    wp Stmt.exec (exec' w) Q (fun _ => True) s := by
  unfold exec'
  rw [wp_bind]
  refine wp_exec (fun n s' hexec => ?_) fun _ _ => trivial
  refine h s' (by rw [(exec_eq hexec).2]) (exec_outputBaskets hexec ?_)
  rw [hw]
  exact nofun

theorem wp_internalizeOutput {c : Internalizing} {id : Nat} {spec : InternalizeOutput}
    (hdefault : DefaultRow c s) :
    wp Stmt.exec (internalizeOutput c id spec) (fun _ s' => Turn c spec s s') (fun _ => True) s := by
  cases spec with
  | walletPayment i sender pre suf =>
    obtain ⟨b, hb, hid, huser, hname⟩ := hdefault
    simp only [internalizeOutput, wp_bind]
    refine wp_findMerged (fun habsent => ?_) fun o hmerge hfound => ?_
    · simp only [storeNewWalletPayment, wp_bind, wp_utcNow]
      refine wp_turn_stmt rfl fun s' hout hbaskets => ?_
      rw [Turn, hbaskets]
      refine ⟨fun _ h => h, b, hb, huser, hname, .added _ (fun _ => rfl) ?_ habsent hout⟩
      refine ⟨by simp [namedBy, InternalizeOutput.index], congrArg some hid.symm, rfl, ?_⟩
      rintro _ _ _ _ ⟨⟩
      exact ⟨rfl, rfl, rfl, rfl⟩
    · simp only
      split
      · rename_i hheld
        rw [beq_iff_eq] at hheld
        exact ⟨fun _ h => h, b, hb, huser, hname,
          .held o hmerge hfound ⟨i, sender, pre, suf, rfl⟩ (hheld.trans (congrArg some hid.symm)) rfl⟩
      · rename_i hheld
        rw [beq_iff_eq] at hheld
        refine wp_turn_stmt rfl fun s' hout hbaskets => ?_
        rw [Turn, hbaskets]
        refine ⟨fun _ h => h, b, hb, huser, hname,
          .merged o _ s.now (fun _ => rfl) hmerge hfound (fun _ _ _ _ _ => hid ▸ hheld) ?_ hout⟩
        refine ⟨congrArg some hid.symm, rfl, ?_⟩
        rintro _ _ _ _ ⟨⟩
        exact ⟨rfl, rfl⟩
  | basketInsertion i name custom tags =>
    simp only [internalizeOutput, wp_bind]
    refine wp_mono wp_findOrInsertOutputBasket ?_ fun _ h => h
    rintro basket s₁ ⟨hgrown, b, hb, hid, huser, hname⟩
    have htags : ∀ s₂ : Store, s₂.outputBaskets = s₁.outputBaskets →
        Taken c (.basketInsertion i name custom tags) b.basketId s₁.outputs s₂.outputs →
        wp Stmt.exec (forM tags
            (addTag c.userId id (InternalizeOutput.index (.basketInsertion i name custom tags))))
          (fun _ s' => Turn c (.basketInsertion i name custom tags) s s') (fun _ => True) s₂ := by
      intro s₂ hbaskets htaken
      refine wp_offRows (Emits.forM fun tag _ => emits_addTag_offRows tag) (fun _ s' h => ?_)
        fun _ _ => trivial
      refine ⟨fun b₀ hb₀ => h.baskets b₀ (hbaskets ▸ hgrown.baskets b₀ hb₀), b,
        h.baskets b (hbaskets ▸ hb), huser, hname, ?_⟩
      rw [h.outputs, ← hgrown.outputs]
      exact htaken
    refine wp_findMerged (fun habsent => ?_) fun o hmerge hfound => ?_
    · simp only [storeNewBasketInsertion, wp_bind, wp_utcNow]
      refine wp_turn_stmt rfl fun s₂ hout hbaskets => ?_
      refine htags s₂ hbaskets (.added _ (fun _ => rfl) ?_ habsent hout)
      exact ⟨by simp [namedBy, InternalizeOutput.index], congrArg some hid.symm, rfl, nofun⟩
    · simp only [wp_bind]
      refine wp_turn_stmt rfl fun s₂ hout hbaskets => ?_
      refine htags s₂ hbaskets (.merged o _ s₁.now (fun _ => rfl) hmerge hfound nofun ?_ hout)
      exact ⟨congrArg some hid.symm, rfl, nofun⟩

/-- The loop over the specifications. -/
theorem wp_turns {c : Internalizing} {id : Nat} {specs : List InternalizeOutput}
    (hdefault : DefaultRow c s) :
    wp Stmt.exec (forM specs (internalizeOutput c id))
      (fun _ s' => (∀ b ∈ s.outputBaskets, b ∈ s'.outputBaskets) ∧
        Turns c s'.outputBaskets specs s.outputs s'.outputs) (fun _ => True) s := by
  induction specs generalizing s with
  | nil => exact ⟨fun _ h => h, .nil _⟩
  | cons spec specs ih =>
    rw [List.forM_cons, wp_bind]
    refine wp_mono (wp_internalizeOutput hdefault) ?_ fun _ h => h
    rintro _ s₁ ⟨hkept, b, hb, huser, hname, htaken⟩
    obtain ⟨d, hd, hdefault⟩ := hdefault
    refine wp_mono (ih ⟨d, hkept d hd, hdefault⟩) ?_ fun _ h => h
    rintro _ s₂ ⟨hkept₂, hturns⟩
    exact ⟨fun b₀ h₀ => hkept₂ b₀ (hkept b₀ h₀), .cons b (hkept₂ b hb) huser hname htaken hturns⟩

theorem storesProof_offRows {ab : Beef} {w : Stmt} (hw : StoresProof ab w) : w.OffRows := by
  cases w with
  | insertProvenTx r => exact ⟨nofun, nofun⟩
  | _ => exact hw.elim

theorem emits_subjectTransaction_offRows {c : Internalizing} (provenTxId : Option Nat) :
    (subjectTransaction sdk c provenTxId).Emits Stmt.OffRows := by
  unfold subjectTransaction
  cases c.existing with
  | some e =>
    simp only
    split
    · exact Emits.bind (emits_exec' ⟨nofun, nofun⟩) fun _ => Emits.pure _
    · exact Emits.pure _
  | none => exact Emits.bind (Emits.ask _) fun _ => Emits.exec ⟨nofun, nofun⟩

theorem emits_requestProof_offRows {c : Internalizing} (id : Nat) :
    (requestProof sdk c id).Emits Stmt.OffRows := by
  unfold requestProof
  split
  · exact Emits.bind (Emits.ask _) fun _ => emits_exec' ⟨nofun, nofun⟩
  · exact Emits.pure ()

/-- The database transaction changes outputs by the turns only. -/
theorem wp_internalizeBody_rows {userId : Nat} {args : StorageInternalizeActionArgs} {s₀ : Store}
    {c : Internalizing} (hprep : Prepared sdk tracker s₀ userId args c) (hdefault : DefaultRow c s) :
    wp Stmt.exec (internalizeBody sdk c)
      (fun _ s' => (∀ b ∈ s.outputBaskets, b ∈ s'.outputBaskets) ∧
        Turns c s'.outputBaskets c.args.outputs s.outputs s'.outputs) (fun _ => True) s := by
  obtain ⟨hmem, htxid⟩ := findSubject_mem hprep.subject
  have hproof : (subjectProvenTxId sdk c).Emits Stmt.OffRows := by
    unfold subjectProvenTxId
    split
    · exact Emits.mono (fun _ => storesProof_offRows) (emits_subjectProof hmem htxid)
    · exact Emits.pure none
  have hanc : (forM c.beef.txs (storeAncestor sdk c.beef)).Emits Stmt.OffRows :=
    Emits.forM fun btx hb => Emits.mono (fun _ => storesProof_offRows) (emits_storeAncestor hb)
  unfold internalizeBody
  rw [wp_bind]
  refine wp_offRows hanc (fun _ s₁ h₁ => ?_) fun _ _ => trivial
  rw [wp_bind]
  refine wp_offRows hproof (fun provenTxId s₂ h₂ => ?_) fun _ _ => trivial
  rw [wp_bind]
  refine wp_offRows (emits_subjectTransaction_offRows provenTxId) (fun id s₃ h₃ => ?_)
    fun _ _ => trivial
  rw [wp_bind]
  refine wp_offRows (Emits.forM fun label _ => emits_addLabel_offRows label) (fun _ s₄ h₄ => ?_)
    fun _ _ => trivial
  have hgrown := ((h₁.trans h₂).trans h₃).trans h₄
  obtain ⟨d, hd, hrow⟩ := hdefault
  rw [wp_bind]
  refine wp_mono (wp_turns ⟨d, hgrown.baskets d hd, hrow⟩) ?_ fun _ h => h
  rintro _ s₅ ⟨hkept, hturns⟩
  refine wp_offRows (emits_requestProof_offRows id) (fun _ s₆ h₆ => ?_) fun _ _ => trivial
  refine ⟨fun b hb => h₆.baskets b (hkept b (hgrown.baskets b hb)), ?_⟩
  rw [h₆.outputs, ← hgrown.outputs]
  exact hturns.mono h₆.baskets

/-! ## What is counted before the rows are written -/

theorem asI64_asI64_add (x y : Int) : asI64 (asI64 x + y) = asI64 (x + y) := by
  unfold asI64
  omega

/-- What the first pass counts for a specification. -/
def counted (isMerge : Bool) (s : Store) (userId : Nat) (subject : Subject)
    (spec : InternalizeOutput) : Int :=
  let held := isMerge && heldAsChange s userId subject.txid spec.index
  match spec with
  | .walletPayment _ _ _ _ => if held then 0 else spec.amount subject.tx
  | .basketInsertion _ _ _ _ => if held then -spec.amount subject.tx else 0

theorem addBalance_asI64 {userId : Nat} {subject : Subject} (x : Int) (spec : InternalizeOutput) :
    addBalance s userId subject (asI64 x) spec = asI64 (x + counted true s userId subject spec) := by
  have hsame : asI64 x = asI64 (x + 0) := by rw [Int.add_zero]
  cases spec with
  | walletPayment i sender pre suf =>
    simp only [addBalance, counted, Bool.true_and]
    split
    · exact hsame
    · exact asI64_asI64_add x _
  | basketInsertion i name custom tags =>
    simp only [addBalance, counted, Bool.true_and]
    split
    · exact asI64_asI64_add x _
    · exact hsame

theorem wp_counted {userId : Nat} {subject : Subject} {isMerge : Bool} {s₀ : Store} (x : Int)
    {spec : InternalizeOutput} (houtputs : s.outputs = s₀.outputs) :
    wp Stmt.exec
      (addNetSatoshis userId subject isMerge (defaultBasketId s₀ userId) (asI64 x) spec)
      (fun r s' => r = asI64 (x + counted isMerge s₀ userId subject spec) ∧ s' = s)
      (fun _ => True) s := by
  cases isMerge with
  | true =>
    refine wp_mono (wp_addNetSatoshis houtputs) ?_ fun _ _ => trivial
    rintro r s' ⟨hr, hs'⟩
    exact ⟨hr.trans (addBalance_asI64 x spec), hs'⟩
  | false =>
    cases spec with
    | walletPayment i sender pre suf =>
      simp only [addNetSatoshis, Bool.false_eq_true, if_false, wp_pure, counted, Bool.false_and, and_true]
      exact asI64_asI64_add x _
    | basketInsertion i name custom tags =>
      simp only [addNetSatoshis, Bool.false_eq_true, if_false, wp_pure, counted, Bool.false_and,
        Int.add_zero, and_self]

theorem wp_counted_all {userId : Nat} {subject : Subject} {isMerge : Bool}
    {specs : List InternalizeOutput} {s₀ : Store} (x : Int) (houtputs : s.outputs = s₀.outputs) :
    wp Stmt.exec
      (specs.foldlM (addNetSatoshis userId subject isMerge (defaultBasketId s₀ userId)) (asI64 x))
      (fun r s' => r = asI64 (x + (specs.map (counted isMerge s₀ userId subject)).sum) ∧ s' = s)
      (fun _ => True) s := by
  induction specs generalizing x with
  | nil => exact ⟨congrArg asI64 (Int.add_zero x).symm, rfl⟩
  | cons spec specs ih =>
    rw [List.foldlM_cons, wp_bind]
    refine wp_mono (wp_counted x houtputs) ?_ fun _ h => h
    rintro r s' ⟨rfl, rfl⟩
    rw [List.map_cons, List.sum_cons, ← Int.add_assoc]
    exact ih _

/-- What a call finds and counts before its database transaction. -/
theorem wp_prepareInternalize_rows {userId : Nat} {args : StorageInternalizeActionArgs} :
    wp Stmt.exec (prepareInternalize sdk tracker userId args)
      (fun c s' => Grown s s' ∧ DefaultRow c s' ∧
        c.defaultBasket.basketId = defaultBasketId s userId ∧
        c.satoshis = asI64 (args.outputs.map (counted c.isMerge s userId c.subject)).sum)
      (fun _ => True) s := by
  unfold prepareInternalize
  rw [wp_bind]
  refine wp_ofExcept (fun beef _ => ?_) fun _ _ => trivial
  rw [wp_bind]
  refine wp_ofExcept (fun _ _ => ?_) fun _ _ => trivial
  rw [wp_bind]
  refine wp_ofExcept (fun subject _ => ?_) fun _ _ => trivial
  rw [wp_bind]
  refine wp_ofExcept (fun _ _ => ?_) fun _ _ => trivial
  rw [wp_bind, wp_ask, wp_bind]
  refine wp_ofExcept (fun existing _ => ?_) fun _ _ => trivial
  rw [wp_bind]
  refine wp_ofExcept (fun _ _ => ?_) fun _ _ => trivial
  rw [wp_bind]
  refine wp_mono (wp_and wp_defaultBasket wp_findOrInsertOutputBasket) ?_ fun _ _ => trivial
  rintro basket s₁ ⟨⟨hbasket, -⟩, hgrown, hrow⟩
  rw [wp_bind, hbasket]
  refine wp_mono (wp_counted_all 0 hgrown.outputs) ?_ fun _ h => h
  rintro satoshis s₂ ⟨hsatoshis, rfl⟩
  rw [Int.zero_add] at hsatoshis
  exact ⟨hgrown, hrow, hbasket, hsatoshis⟩

/-! ## What the turns leave -/

namespace Taken

variable {c : Internalizing} {spec : InternalizeOutput} {basketId : Nat} {t t' : Table Output}

/-- A turn leaves the rows of the other outputs alone. -/
theorem find_other (h : Taken c spec basketId t t') {vout : Nat} (hne : vout ≠ spec.index) :
    t'.find (namedBy c.userId c.subject.txid vout) = t.find (namedBy c.userId c.subject.txid vout) := by
  have hnot : ∀ o, namedBy c.userId c.subject.txid spec.index o = true →
      namedBy c.userId c.subject.txid vout o = false := by
    intro o ho
    simp only [namedBy, Bool.and_eq_true, beq_iff_eq] at ho
    simp only [namedBy, ho.2, Bool.and_eq_false_iff, beq_eq_false_iff_ne]
    exact .inr hne.symm
  cases h with
  | added row hk hrow _ h =>
    rw [h, Table.find_insert, if_neg, List.append_nil]
    exact Bool.eq_false_iff.mp (hnot _ hrow.named)
  | held o _ _ _ _ h => rw [h]
  | merged o p now hk _ hfound _ hrow h =>
    obtain ⟨ho, hnamed⟩ := Table.mem_find.mp (hfound ▸ List.mem_singleton.mpr rfl : o ∈ t.find _)
    rw [h, Table.find_update fun r => by simp only [namedBy, OutputPartial.apply, hrow.txid, Option.none_or]]
    refine (List.map_congr_left fun r hr => ?_).trans (List.map_id _)
    obtain ⟨hr, hsel⟩ := Table.mem_find.mp hr
    split
    · rename_i hid
      obtain rfl : r = o := Table.eq_of_key_eq hr ho (beq_iff_eq.mp hid)
      rw [hnot r hnamed] at hsel
      cases hsel
    · rfl

/-- The rows of its own output after a turn: one more, the same, or the one row merged with. -/
theorem find_own (h : Taken c spec basketId t t') :
    let rows := t.find (namedBy c.userId c.subject.txid spec.index)
    let rows' := t'.find (namedBy c.userId c.subject.txid spec.index)
    (∃ row, AddedRow c spec basketId row ∧ (c.isMerge = true → rows = []) ∧ rows' = rows ++ [row]) ∨
      (∃ o, c.isMerge = true ∧ rows = [o] ∧ o.basketId = some basketId ∧ rows' = rows) ∨
      ∃ o p now, c.isMerge = true ∧ rows = [o] ∧ MergesRow spec basketId p ∧
        rows' = [OutputPartial.apply p now o] := by
  cases h with
  | added row hk hrow habsent h =>
    refine .inl ⟨row.stored (t.lastId + 1), ⟨hrow.named, hrow.basketId, hrow.satoshis, hrow.payment⟩,
      habsent, ?_⟩
    rw [h, Table.find_insert, if_pos]
    exact hrow.named
  | held o hmerge hfound _ hheld h => exact .inr (.inl ⟨o, hmerge, hfound, hheld, by rw [h]⟩)
  | merged o p now hk hmerge hfound _ hrow h =>
    refine .inr (.inr ⟨o, p, now, hmerge, hfound, hrow, ?_⟩)
    rw [h, Table.find_update fun r => by simp only [namedBy, OutputPartial.apply, hrow.txid, Option.none_or],
      hfound]
    simp

end Taken

namespace Turns

variable {c : Internalizing} {bs : Table OutputBasket} {specs : List InternalizeOutput}
  {t t' : Table Output}

/-- The loop leaves the rows of outputs that no specification names. -/
theorem find_other (h : Turns c bs specs t t') {vout : Nat} (hne : ∀ spec ∈ specs, vout ≠ spec.index) :
    t'.find (namedBy c.userId c.subject.txid vout) = t.find (namedBy c.userId c.subject.txid vout) := by
  induction h with
  | nil t => rfl
  | cons b hb huser hname hturn _ ih =>
    rw [ih fun spec hspec => hne spec (List.mem_cons_of_mem _ hspec),
      hturn.find_other (hne _ List.mem_cons_self)]

/-- Every specification has its turn, on the rows of its output as they were before the loop. -/
theorem turn_of_mem (h : Turns c bs specs t t')
    (hnodup : specs.Pairwise fun a b => a.index ≠ b.index) {spec : InternalizeOutput}
    (hspec : spec ∈ specs) :
    ∃ b ∈ bs, b.userId = c.userId ∧ b.name = spec.basketName ∧ ∃ u u' : Table Output,
      Taken c spec b.basketId u u' ∧
      u.find (namedBy c.userId c.subject.txid spec.index) =
        t.find (namedBy c.userId c.subject.txid spec.index) ∧
      t'.find (namedBy c.userId c.subject.txid spec.index) =
        u'.find (namedBy c.userId c.subject.txid spec.index) := by
  induction h with
  | nil t => cases hspec
  | cons b hb huser hname hturn hrest ih =>
    obtain ⟨hhead, htail⟩ := List.pairwise_cons.mp hnodup
    rcases List.mem_cons.mp hspec with rfl | hspec
    · exact ⟨b, hb, huser, hname, _, _, hturn, rfl, hrest.find_other hhead⟩
    · obtain ⟨b', hb', huser', hname', u, u', hturn', hbefore, hafter⟩ := ih htail hspec
      exact ⟨b', hb', huser', hname', u, u', hturn',
        hbefore.trans (hturn.find_other (hhead _ hspec).symm), hafter⟩

end Turns

/-! ## A whole call -/

theorem checkOutputs_nodup {n : Nat} {seen : List Nat} {specs : List InternalizeOutput}
    (h : checkOutputs n seen specs = .ok ()) :
    specs.Pairwise (fun a b => a.index ≠ b.index) ∧ ∀ spec ∈ specs, spec.index ∉ seen := by
  induction specs generalizing seen with
  | nil => exact ⟨.nil, nofun⟩
  | cons spec specs ih =>
    unfold checkOutputs at h
    split at h
    · cases h
    · split at h
      · cases h
      · rename_i hseen
        obtain ⟨hnodup, hfresh⟩ := ih h
        refine ⟨List.pairwise_cons.mpr ⟨fun b hb heq => ?_, hnodup⟩, fun b hb => ?_⟩
        · exact hfresh b hb (heq ▸ List.mem_cons_self)
        · rcases List.mem_cons.mp hb with rfl | hb
          · simpa using hseen
          · exact fun hmem => hfresh b hb (List.mem_cons_of_mem _ hmem)

/-- What a call that succeeds has done, with the default basket `d` of the user. -/
structure TookOver (sdk : Sdk) (tracker : ChainTracker) (s s' : Store) (userId : Nat)
    (args : StorageInternalizeActionArgs) (c : Internalizing) (d : OutputBasket) : Prop where
  prepared : Prepared sdk tracker s userId args c
  basket : d ∈ s'.outputBaskets
  basketUser : d.userId = userId
  basketName : d.name = "default"
  basketId : d.basketId = defaultBasketId s userId
  kept : ∀ b ∈ s.outputBaskets, b ∈ s'.outputBaskets
  turns : Turns c s'.outputBaskets args.outputs s.outputs s'.outputs

theorem storageInternalizeAction_rows {userId : Nat} {args : StorageInternalizeActionArgs}
    {r : StorageInternalizeActionResult} {s' : Store}
    (h : (storageInternalizeAction sdk tracker userId args).run Stmt.exec s = (.ok r, s')) :
    ∃ c d, TookOver sdk tracker s s' userId args c d ∧
      r.satoshis = asI64 (args.outputs.map (counted c.isMerge s userId c.subject)).sum ∧
      r.txid = c.subject.txid := by
  suffices hwp : wp Stmt.exec (storageInternalizeAction sdk tracker userId args)
      (fun r s' => ∃ c d, TookOver sdk tracker s s' userId args c d ∧
        r.satoshis = asI64 (args.outputs.map (counted c.isMerge s userId c.subject)).sum ∧
        r.txid = c.subject.txid) (fun _ => True) s from wp_ok hwp h
  unfold storageInternalizeAction
  rw [wp_bind]
  refine wp_mono (wp_and wp_prepareInternalize wp_prepareInternalize_rows) ?_ fun _ _ => trivial
  rintro c s₁ ⟨⟨hprep, -⟩, hgrown, hdefault, hid, hsatoshis⟩
  rw [wp_bind, wp_atomically]
  refine wp_mono (wp_internalizeBody_rows hprep hdefault) ?_ fun _ _ => trivial
  rintro _ s₂ ⟨hkept, hturns⟩
  obtain ⟨d, hd, hdid, hduser, hdname⟩ := hdefault
  refine ⟨c, d, ⟨hprep, hkept d hd, hduser.trans hprep.user, hdname, hdid.trans hid,
    fun b hb => hkept b (hgrown.baskets b hb), ?_⟩, hsatoshis, rfl⟩
  rw [← hgrown.outputs, ← hprep.given]
  exact hturns

namespace TookOver

variable {s' : Store} {userId : Nat} {args : StorageInternalizeActionArgs} {c : Internalizing}
  {d : OutputBasket}

theorem nodup (h : TookOver sdk tracker s s' userId args c d) :
    args.outputs.Pairwise fun a b => a.index ≠ b.index :=
  (checkOutputs_nodup h.prepared.outputs).1

/-- A call merges when the user holds the transaction. -/
theorem isMerge (h : TookOver sdk tracker s s' userId args c d) :
    c.isMerge = holdsTransaction s userId c.subject.txid := by
  unfold Internalizing.isMerge holdsTransaction
  rw [verifyOneOrNone_first h.prepared.existing]
  exact List.isSome_find?

/-- After the call a row is in the default basket when it names `d`. -/
theorem inDefault_after (h : TookOver sdk tracker s s' userId args c d) (o : Output) :
    inDefaultBasket s' userId o = (o.basketId == some d.basketId) := by
  rw [Bool.eq_iff_iff, inDefaultBasket, Table.exists?_eq_true, beq_iff_eq]
  simp only [Bool.and_eq_true, beq_iff_eq]
  constructor
  · rintro ⟨b, hb, ⟨huser, hname⟩, hid⟩
    obtain rfl : b = d := s'.unique.outputBaskets.eq hb h.basket
      (by rw [huser, hname, h.basketUser, h.basketName])
    exact hid
  · intro hid
    exact ⟨d, h.basket, ⟨h.basketUser, h.basketName⟩, hid⟩

/-- So it is before the call, for the rows that are there. -/
theorem inDefault_before (h : TookOver sdk tracker s s' userId args c d) {o : Output}
    (ho : o ∈ s.outputs) : inDefaultBasket s userId o = (o.basketId == some d.basketId) := by
  rw [← h.inDefault_after o, Bool.eq_iff_iff, inDefaultBasket, inDefaultBasket,
    Table.exists?_eq_true, Table.exists?_eq_true]
  constructor
  · rintro ⟨b, hb, hsel⟩
    exact ⟨b, h.kept b hb, hsel⟩
  · rintro ⟨b, hb, hsel⟩
    have hid : o.basketId = some b.basketId := by
      simp only [Bool.and_eq_true, beq_iff_eq] at hsel
      exact hsel.2
    obtain ⟨b₀, h₀, hkey⟩ := s.foreign.outputBasket o ho _ hid
    obtain rfl : b₀ = b := Table.eq_of_key_eq (h.kept b₀ h₀) hb hkey
    exact ⟨b₀, h₀, hsel⟩

/-- A specification names the default basket exactly when its basket is `d`. -/
theorem basketId_eq (h : TookOver sdk tracker s s' userId args c d) {b : OutputBasket}
    (hb : b ∈ s'.outputBaskets) (huser : b.userId = userId) :
    b.basketId = d.basketId ↔ b.name = "default" := by
  constructor
  · intro hid
    rw [Table.eq_of_key_eq hb h.basket hid, h.basketName]
  · intro hname
    rw [s'.unique.outputBaskets.eq hb h.basket (by rw [huser, hname, h.basketUser, h.basketName])]

end TookOver

end WalletToolbox.Storage
