import WalletToolbox.Laws.Provider
import WalletToolbox.Methods.InternalizeAction

/-! # What internalizeAction can do

`Prepared` collects what the call knows when it begins its database transaction, and
`InternalizeStmt` is the class of statements it issues once it has the transaction row.
The first result about a whole call says exactly when it moves a transaction backwards. -/

namespace WalletToolbox.Storage

open WalletToolbox.Lib
open WalletToolbox.Lib.Prog hiding pure exec

variable {sdk : Sdk} {tracker : ChainTracker} {s : Store}

/-! ## The BEEF -/

/-- A loop of checks that passes made each of its checks with success. -/
theorem foldlM_except_ok {α β : Type} {f : β → α → Except WalletError β} {xs : List α} {b r : β}
    (h : xs.foldlM f b = .ok r) {x : α} (hx : x ∈ xs) : ∃ b' r', f b' x = .ok r' := by
  induction xs generalizing b with
  | nil => cases hx
  | cons y ys ih =>
    rw [List.foldlM_cons] at h
    obtain ⟨b', hy, hrest⟩ := except_bind_ok h
    rcases List.mem_cons.mp hx with rfl | hx
    · exact ⟨b, b', hy⟩
    · exact ih hrest hx

/-- In a verified BEEF every bump index is in range. -/
theorem verifyAtomicBeef_bumps {ab : Beef} (h : verifyAtomicBeef sdk tracker ab = .ok ())
    {btx : BeefTx} (hb : btx ∈ ab.txs) {idx : Nat} (hidx : btx.bumpIndex = some idx) :
    ∃ bump, ab.bumps[idx]? = some bump := by
  unfold verifyAtomicBeef at h
  obtain ⟨_, _, h⟩ := except_bind_ok h
  cases hf : ab.txs.find? (·.isTxidOnly) with
  | some b =>
    simp only [hf] at h
    cases h
  | none =>
    simp only [hf] at h
    obtain ⟨acc, _, h⟩ := except_bind_ok h
    obtain ⟨claimed, hclaimed, _⟩ := except_bind_ok h
    obtain ⟨valid, valid', hok⟩ := foldlM_except_ok hclaimed hb
    simp only [checkClaimsBump, hidx] at hok
    cases hbump : ab.bumps[idx]? with
    | none =>
      simp only [hbump] at hok
      cases hok
    | some bump => exact ⟨bump, rfl⟩

theorem findSubject_mem {ab : Beef} {subject : Subject} (h : findSubject ab = .ok subject) :
    subject.beefTx ∈ ab.txs ∧ subject.beefTx.txid = subject.txid := by
  unfold findSubject at h
  cases ha : ab.atomicTxid.filter (!·.isEmpty) with
  | none => simp only [ha] at h; cases h
  | some txid =>
    simp only [ha] at h
    cases hf : ab.txs.find? (·.txid == txid) with
    | none => simp only [hf] at h; cases h
    | some beefTx =>
      simp only [hf] at h
      cases htx : beefTx.tx with
      | none => simp only [htx] at h; cases h
      | some tx =>
        simp only [htx] at h
        cases h
        exact ⟨List.mem_of_find?_eq_some hf, by simpa using List.find?_some hf⟩

/-! ## What the call knows when it begins to write -/

/-- The id of the user's default basket: the one stored, or the next one to be handed out. -/
def defaultBasketId (s : Store) (userId : Nat) : Nat :=
  match s.outputBaskets.first fun b => b.userId == userId && b.name == "default" with
  | some b => b.basketId
  | none => s.outputBaskets.lastId + 1

/-- The user's output row for an outpoint, if it is in the default basket. -/
def heldAsChange (s : Store) (userId : Nat) (txid : String) (vout : Nat) : Bool :=
  (s.outputs.first fun o => o.userId == userId && o.txid == some txid && o.vout == vout).any
    fun o => o.basketId == some (defaultBasketId s userId)

/-- What one specification adds to the balance of a user who holds the transaction already: a
payment that is not change yet counts, and change that is moved to a basket is deducted. -/
def addBalance (s : Store) (userId : Nat) (subject : Subject) (satoshis : Int)
    (spec : InternalizeOutput) : Int :=
  let amount := TxOutput.amount (outputAt subject.tx spec.index)
  let held := heldAsChange s userId subject.txid spec.index
  match spec with
  | .walletPayment _ _ _ _ => if held then satoshis else asI64 (satoshis + amount)
  | .basketInsertion _ _ _ _ => if held then asI64 (satoshis - amount) else satoshis

/-- What the specifications change of the balance of a user who holds the transaction already. -/
def balanceChange (s : Store) (userId : Nat) (subject : Subject) (specs : List InternalizeOutput) :
    Int :=
  specs.foldl (addBalance s userId subject) 0

/-- What a call has established before its database transaction, from the store it found. -/
structure Prepared (sdk : Sdk) (tracker : ChainTracker) (s : Store) (userId : Nat)
    (args : StorageInternalizeActionArgs) (c : Internalizing) : Prop where
  user : c.userId = userId
  given : c.args = args
  parsed : sdk.parseBeef args.tx = .ok c.beef
  verified : verifyAtomicBeef sdk tracker c.beef = .ok ()
  subject : findSubject c.beef = .ok c.subject
  outputs : checkOutputs c.subject.tx.outputs.length [] args.outputs = .ok ()
  existing : verifyOneOrNone (s.transactions.find fun t =>
    t.userId == userId && t.txid == some c.subject.txid) = .ok c.existing
  mergeable : checkMergeable c.existing = .ok ()
  satoshis : c.existing.isSome = true →
    c.satoshis = balanceChange s userId c.subject args.outputs

theorem wp_defaultBasket {userId : Nat} :
    wp Stmt.exec (findOrInsertOutputBasket userId "default")
      (fun b s' => b.basketId = defaultBasketId s userId ∧ SameCore s s') (SameCore s) s := by
  unfold findOrInsertOutputBasket
  rw [wp_bind, wp_ask, wp_bind]
  refine wp_ofExcept (fun found hfound => ?_) fun _ _ => SameCore.refl s
  have hfirst := verifyOneOrNone_first hfound
  cases found with
  | some b => exact ⟨by simp only [defaultBasketId, ← hfirst], SameCore.refl s⟩
  | none =>
    simp only [wp_bind, wp_utcNow, wp_pure]
    refine wp_exec (fun n s' h => ?_) fun _ _ => SameCore.refl s
    refine ⟨?_, Stmt.OffCore.sameCore (by simp [Stmt.OffCore, Stmt.target]) h⟩
    simp only [defaultBasketId, ← hfirst]
    exact (exec_eq h).1

theorem wp_findOwnOutput {userId : Nat} {txid : String} {vout : Nat}
    {Q : Option Output → Store → Prop} {E : Store → Prop}
    (hQ : Q (s.outputs.first fun o => o.userId == userId && o.txid == some txid && o.vout == vout) s)
    (hE : E s) : wp Stmt.exec (findOwnOutput userId txid vout) Q E s := by
  unfold findOwnOutput
  rw [wp_bind, wp_ask]
  refine wp_ofExcept (fun found hfound => ?_) fun _ _ => hE
  rw [verifyOneOrNone_first hfound]
  exact hQ

/-- For a transaction the user holds, the code's running balance is `addBalance`. -/
theorem wp_addNetSatoshis {userId : Nat} {subject : Subject} {satoshis : Int}
    {spec : InternalizeOutput} {s₀ : Store} (houtputs : s.outputs = s₀.outputs) :
    wp Stmt.exec
      (addNetSatoshis userId subject true (defaultBasketId s₀ userId) satoshis spec)
      (fun r s' => r = addBalance s₀ userId subject satoshis spec ∧ s' = s) (· = s) s := by
  unfold addNetSatoshis
  cases spec with
  | walletPayment i sender pre suf =>
    simp only [if_true, wp_bind]
    refine wp_findOwnOutput ?_ rfl
    simp only [addBalance, heldAsChange, InternalizeOutput.index, houtputs]
    split
    · rename_i o hfirst
      cases hb : o.basketId == some (defaultBasketId s₀ userId) <;> simp [hfirst, hb]
    · rename_i hfirst
      simp [hfirst]
  | basketInsertion i name custom tags =>
    simp only [if_true, wp_bind]
    refine wp_findOwnOutput ?_ rfl
    simp only [addBalance, heldAsChange, InternalizeOutput.index, houtputs]
    split
    · rename_i o hfirst
      cases hb : o.basketId == some (defaultBasketId s₀ userId) <;> simp [hfirst, hb]
    · rename_i hfirst
      simp [hfirst]

/-- Summing the specifications issues no statement. -/
theorem wp_satoshis {userId : Nat} {subject : Subject} {isMerge : Bool} {specs : List InternalizeOutput}
    {s₀ : Store} (hcore : SameCore s₀ s) :
    wp Stmt.exec
      (specs.foldlM (addNetSatoshis userId subject isMerge (defaultBasketId s₀ userId)) 0)
      (fun r s' => (isMerge = true → r = balanceChange s₀ userId subject specs) ∧ SameCore s₀ s')
      (SameCore s₀) s := by
  cases isMerge with
  | false =>
    refine wp_mono (wp_offCore ?_ (fun _ s' h => hcore.trans h) (fun s' h => hcore.trans h))
      (fun _ s' h => ⟨nofun, h⟩) fun _ h => h
    refine Emits.foldlM fun satoshis spec _ => ?_
    cases spec <;> exact Emits.pure _
  | true =>
    unfold balanceChange
    -- the running sum is followed from any start, so that the induction goes through
    generalize (0 : Int) = start
    induction specs generalizing start with
    | nil => exact ⟨fun _ => rfl, hcore⟩
    | cons spec specs ih =>
      rw [List.foldlM_cons, wp_bind]
      refine wp_mono (wp_addNetSatoshis hcore.outputs) ?_ (fun s' h => h ▸ hcore)
      rintro r s' ⟨rfl, rfl⟩
      exact ih _

/-- The reads and checks of a call, with the one row it may add before the transaction. -/
theorem wp_prepareInternalize {userId : Nat} {args : StorageInternalizeActionArgs} :
    wp Stmt.exec (prepareInternalize sdk tracker userId args)
      (fun c s' => Prepared sdk tracker s userId args c ∧ SameCore s s') (SameCore s) s := by
  unfold prepareInternalize
  have hsame := SameCore.refl s
  rw [wp_bind]
  refine wp_ofExcept (fun beef hbeef => ?_) fun _ _ => hsame
  rw [wp_bind]
  refine wp_ofExcept (fun _ hverified => ?_) fun _ _ => hsame
  rw [wp_bind]
  refine wp_ofExcept (fun subject hsubject => ?_) fun _ _ => hsame
  rw [wp_bind]
  refine wp_ofExcept (fun _ houtputs => ?_) fun _ _ => hsame
  rw [wp_bind, wp_ask, wp_bind]
  refine wp_ofExcept (fun existing hexisting => ?_) fun _ _ => hsame
  rw [wp_bind]
  refine wp_ofExcept (fun _ hmergeable => ?_) fun _ _ => hsame
  rw [wp_bind]
  refine wp_mono wp_defaultBasket ?_ fun _ h => h
  rintro basket s₁ ⟨hbasket, hcore⟩
  rw [wp_bind, hbasket]
  refine wp_mono (wp_satoshis hcore) ?_ fun _ h => h
  rintro satoshis s₂ ⟨hsatoshis, hcore₂⟩
  refine ⟨⟨rfl, rfl, ?_, hverified, hsubject, houtputs, hexisting, hmergeable, hsatoshis⟩, hcore₂⟩
  cases hparse : sdk.parseBeef args.tx with
  | ok b =>
    simp only [hparse, Except.ok.injEq] at hbeef
    rw [hbeef]
  | error e =>
    simp only [hparse] at hbeef
    cases hbeef

/-! ## The statements of the database transaction -/

/-- The insert of a proof for a transaction that the BEEF proves. -/
def StoresProof (ab : Beef) : Stmt → Prop
  | .insertProvenTx r => ∃ btx ∈ ab.txs, btx.hasProof = true ∧ r.txid = btx.txid
  | _ => False

/-- The request for the proof of a subject that the BEEF does not prove. -/
structure ProofRequest (sdk : Sdk) (c : Internalizing) (id : Nat) (r : ProvenTxReq) : Prop where
  txid : r.txid = c.subject.txid
  status : r.status = .unmined
  provenTxId : r.provenTxId = none
  isNew : c.existing = none
  unproven : c.hasProof = false
  notify : r.notify = some (.obj [("transactionIds", .arr [.num id])])
  rawTx : r.rawTx = (sdk.txBytes c.subject.tx).toOption.getD []

/-- What a call issues once it has the id of the transaction row. -/
def InternalizeStmt (sdk : Sdk) (c : Internalizing) (id : Nat) : Stmt → Prop
  | .insertOutput r =>
    r.userId = c.userId ∧ r.transactionId = id ∧ r.spendable = true ∧ r.spentBy = none ∧
      r.txid = some c.subject.txid ∧ ∃ spec ∈ c.args.outputs, r.vout = spec.index
  | .updateOutput _ p => p.spendable = none ∧ p.spentBy = none ∧ p.txid = none
  | .insertProvenTxReq r => ProofRequest sdk c id r
  | w => w.OffCore

theorem emits_storeAncestor {ab : Beef} {btx : BeefTx} (hb : btx ∈ ab.txs) :
    (storeAncestor sdk ab btx).Emits (StoresProof ab) := by
  unfold storeAncestor
  split
  · rename_i bump tx hbump htx
    refine Emits.bind (Emits.ask _) fun rows => Emits.bind (Emits.ofExcept _) fun existing => ?_
    split
    · refine Emits.bind (Emits.ask _) fun now => emits_ignore (Emits.exec ?_)
      refine ⟨btx, hb, ?_, rfl⟩
      cases hidx : btx.bumpIndex with
      | none => simp [hidx] at hbump
      | some idx => simp [BeefTx.hasProof, hidx]
    · exact Emits.pure ()
  · exact Emits.pure ()

theorem emits_addLabel {c : Internalizing} {id : Nat} (label : String) :
    (addLabel c.userId id label).Emits (InternalizeStmt sdk c id) := by
  refine Emits.bind (emits_findOrInsertTxLabel _ _ fun l => ?_) fun txLabel =>
    Emits.bind (Emits.ask _) fun now => emits_ignore (Emits.exec ?_)
  all_goals simp [InternalizeStmt, Stmt.OffCore, Stmt.target]

theorem emits_addTag {c : Internalizing} {id vout : Nat} (tag : String) :
    (addTag c.userId id vout tag).Emits (InternalizeStmt sdk c id) := by
  refine Emits.bind (emits_findOrInsertOutputTag _ _ fun t => ?_) fun outputTag =>
    Emits.bind (Emits.ask _) fun rows => Emits.bind (Emits.ofExcept _) fun found => ?_
  · simp [InternalizeStmt, Stmt.OffCore, Stmt.target]
  · cases found with
    | none => exact Emits.pure ()
    | some o =>
      refine Emits.bind (Emits.ask _) fun now => emits_ignore (Emits.exec ?_)
      simp [InternalizeStmt, Stmt.OffCore, Stmt.target]

theorem emits_findMerged {K : Stmt → Prop} (c : Internalizing) (vout : Nat) :
    (findMerged c vout).Emits K := by
  unfold findMerged
  split
  · exact Emits.bind (Emits.ask _) fun _ => Emits.ofExcept _
  · exact Emits.pure none

theorem emits_internalizeOutput {c : Internalizing} {id : Nat} {spec : InternalizeOutput}
    (hspec : spec ∈ c.args.outputs) : (internalizeOutput c id spec).Emits (InternalizeStmt sdk c id) := by
  cases spec with
  | walletPayment i sender pre suf =>
    refine Emits.bind (emits_findMerged c _) fun found => ?_
    cases found with
    | some o =>
      simp only
      split
      · exact Emits.pure ()
      · exact emits_exec' ⟨rfl, rfl, rfl⟩
    | none =>
      exact Emits.bind (Emits.ask _) fun now =>
        emits_exec' ⟨rfl, rfl, rfl, rfl, rfl, _, hspec, rfl⟩
  | basketInsertion i name custom tags =>
    refine Emits.bind (emits_findOrInsertOutputBasket _ _ fun b => ?_) fun basket =>
      Emits.bind (emits_findMerged c _) fun found => ?_
    · simp [InternalizeStmt, Stmt.OffCore, Stmt.target]
    · cases found with
      | some o =>
        exact Emits.bind (emits_exec' ⟨rfl, rfl, rfl⟩) fun _ =>
          Emits.forM fun tag _ => emits_addTag tag
      | none =>
        refine Emits.bind (Emits.bind (Emits.ask _) fun now => emits_exec' ?_) fun _ =>
          Emits.forM fun tag _ => emits_addTag tag
        exact ⟨rfl, rfl, rfl, rfl, rfl, _, hspec, rfl⟩

theorem emits_requestProof {c : Internalizing} {id : Nat} :
    (requestProof sdk c id).Emits (InternalizeStmt sdk c id) := by
  unfold requestProof
  split
  · rename_i hcond
    rw [Bool.and_eq_true, Bool.not_eq_true', Bool.not_eq_true', Internalizing.isMerge,
      Option.isSome_eq_false_iff, Option.isNone_iff_eq_none] at hcond
    exact Emits.bind (Emits.ask _) fun now => emits_exec' ⟨rfl, rfl, rfl, hcond.2, hcond.1, rfl, rfl⟩
  · exact Emits.pure ()

/-- The proof id that a call writes into a new transaction row: the row of the subject's txid when
the BEEF proves the subject, and none otherwise. -/
def SubjectProven (c : Internalizing) (provenTxId : Option Nat) (s : Store) : Prop :=
  if c.hasProof then
    ∃ p ∈ s.provenTxs, provenTxId = some p.provenTxId ∧ p.txid = c.subject.txid
  else provenTxId = none

theorem emits_subjectProof {c : Internalizing} (hb : c.subject.beefTx ∈ c.beef.txs)
    (htxid : c.subject.beefTx.txid = c.subject.txid) :
    (subjectProof sdk c).Emits (StoresProof c.beef) := by
  unfold subjectProof
  split
  · exact Emits.pure none
  · rename_i bump hbump
    split
    · exact Emits.fail _
    · exact Emits.fail _
    · refine Emits.bind (Emits.ask _) fun rows => Emits.bind (Emits.ofExcept _) fun found => ?_
      cases found with
      | some ep => exact Emits.pure _
      | none =>
        refine Emits.bind (Emits.ask _) fun now => Emits.bind (Emits.exec ?_) fun id => Emits.pure _
        refine ⟨c.subject.beefTx, hb, ?_, htxid.symm⟩
        cases hidx : c.subject.beefTx.bumpIndex with
        | none => simp [hidx] at hbump
        | some idx => simp [BeefTx.hasProof, hidx]

theorem wp_subjectProof {c : Internalizing} {idx : Nat} {bump : MerklePath}
    (hidx : c.subject.beefTx.bumpIndex = some idx) (hbump : c.beef.bumps[idx]? = some bump) :
    wp Stmt.exec (subjectProof sdk c)
      (fun id s' => ∃ p ∈ s'.provenTxs, id = some p.provenTxId ∧ p.txid = c.subject.txid)
      (fun _ => True) s := by
  unfold subjectProof
  have hfound : c.subject.beefTx.bumpIndex.bind (c.beef.bumps[·]?) = some bump := by
    rw [hidx, Option.bind_some, hbump]
  simp only [hfound]
  split
  · trivial
  · trivial
  · rename_i root path hroot hpath
    rw [wp_bind, wp_ask, wp_bind]
    refine wp_ofExcept (fun found hok => ?_) fun _ _ => trivial
    have hfirst := verifyOneOrNone_first hok
    cases found with
    | some ep =>
      obtain ⟨hmem, htxid⟩ := Table.first_some hfirst.symm
      exact ⟨ep, hmem, rfl, by simpa using htxid⟩
    | none =>
      simp only [wp_bind, wp_utcNow, wp_pure]
      refine wp_exec (fun n s' h => ?_) fun _ _ => trivial
      obtain ⟨rfl, hs'⟩ := exec_eq h
      rw [hs']
      exact ⟨_, mem_insertProvenTx.mpr (.inr rfl), rfl, rfl⟩

/-- The rule for the database transaction: the proofs keep `A`, the transaction row turns `A`
into `C`, and everything after it keeps `C`. -/
theorem wp_internalizeBody {c : Internalizing} {A : Store → Prop} {C : Nat → Store → Prop}
    {userId : Nat} {args : StorageInternalizeActionArgs} {s₀ : Store}
    (hprep : Prepared sdk tracker s₀ userId args c)
    (hproof : ∀ w s n s', StoresProof c.beef w → A s → w.exec s = .ok (n, s') → A s')
    (hrow : ∀ id s, A s → SubjectProven c id s →
      wp Stmt.exec (subjectTransaction sdk c id) C (fun _ => True) s)
    (hrest : ∀ id w s n s', InternalizeStmt sdk c id w → C id s → w.exec s = .ok (n, s') → C id s')
    (hs : A s) :
    wp Stmt.exec (internalizeBody sdk c) (fun _ s' => ∃ id, C id s') (fun _ => True) s := by
  obtain ⟨hmem, htxid⟩ := findSubject_mem hprep.subject
  unfold internalizeBody
  rw [wp_bind]
  have hanc : wp Stmt.exec (forM c.beef.txs (storeAncestor sdk c.beef)) (fun _ => A) A s :=
    (Emits.forM fun btx hb => emits_storeAncestor hb).wp hproof hs
  refine wp_mono hanc (fun _ s₁ h₁ => ?_) fun _ _ => trivial
  rw [wp_bind]
  have hsubj : wp Stmt.exec (subjectProvenTxId sdk c)
      (fun id s' => A s' ∧ SubjectProven c id s') (fun _ => True) s₁ := by
    unfold subjectProvenTxId
    cases hp : c.hasProof with
    | false => exact ⟨h₁, by simp [SubjectProven, hp]⟩
    | true =>
      obtain ⟨idx, hidx⟩ := Option.isSome_iff_exists.mp hp
      obtain ⟨bump, hbump⟩ := verifyAtomicBeef_bumps hprep.verified hmem hidx
      have hkeep : wp Stmt.exec (subjectProof sdk c) (fun _ => A) A s₁ :=
        (emits_subjectProof hmem htxid).wp hproof h₁
      refine wp_mono (wp_and hkeep (wp_subjectProof hidx hbump)) ?_ fun _ _ => trivial
      rintro id s' ⟨hA, hnames⟩
      exact ⟨hA, by simpa only [SubjectProven, hp, if_true] using hnames⟩
  refine wp_mono hsubj (fun id s₂ h₂ => ?_) fun _ _ => trivial
  rw [wp_bind]
  refine wp_mono (hrow id s₂ h₂.1 h₂.2) (fun t s₃ h₃ => ?_) fun _ h => h
  have hemits : (do
      forM c.args.labels (addLabel c.userId t)
      forM c.args.outputs (internalizeOutput c t)
      requestProof sdk c t).Emits (InternalizeStmt sdk c t) :=
    Emits.bind (Emits.forM fun label _ => emits_addLabel label) fun _ =>
      Emits.bind (Emits.forM fun spec hspec => emits_internalizeOutput hspec) fun _ =>
        emits_requestProof
  exact wp_mono (hemits.wp (hrest t) h₃) (fun _ s' h => ⟨t, h⟩) fun _ _ => trivial

/-- The rule for a whole call: a failed call and the reads leave the core tables alone. -/
theorem wp_storageInternalizeAction {userId : Nat} {args : StorageInternalizeActionArgs}
    {Q : Store → Prop} (hsame : ∀ s', SameCore s s' → Q s')
    (hbody : ∀ c s₁, Prepared sdk tracker s userId args c → SameCore s s₁ →
      wp Stmt.exec (internalizeBody sdk c) (fun _ s' => Q s') (fun _ => True) s₁) :
    wp Stmt.exec (storageInternalizeAction sdk tracker userId args) (fun _ => Q) Q s := by
  unfold storageInternalizeAction
  rw [wp_bind]
  refine wp_mono wp_prepareInternalize ?_ hsame
  rintro c s₁ ⟨hprep, hcore⟩
  rw [wp_bind, wp_atomically]
  exact wp_mono (hbody c s₁ hprep hcore) (fun _ _ h => h) fun _ _ => hsame s₁ hcore

/-! ## The effect on the rows -/

/-- The columns that say where an output is and whether it is spent are the same. -/
structure SameSpend (o₀ o : Output) : Prop where
  outputId : o.outputId = o₀.outputId
  userId : o.userId = o₀.userId
  transactionId : o.transactionId = o₀.transactionId
  spendable : o.spendable = o₀.spendable
  spentBy : o.spentBy = o₀.spentBy
  txid : o.txid = o₀.txid
  vout : o.vout = o₀.vout

theorem SameSpend.refl (o : Output) : SameSpend o o := ⟨rfl, rfl, rfl, rfl, rfl, rfl, rfl⟩

theorem SameSpend.trans {o₁ o₂ o₃ : Output} (h : SameSpend o₁ o₂) (h' : SameSpend o₂ o₃) :
    SameSpend o₁ o₃ :=
  ⟨h'.outputId.trans h.outputId, h'.userId.trans h.userId,
    h'.transactionId.trans h.transactionId, h'.spendable.trans h.spendable,
    h'.spentBy.trans h.spentBy, h'.txid.trans h.txid, h'.vout.trans h.vout⟩

/-- An output that a call adds. -/
structure TakenOutput (c : Internalizing) (id : Nat) (o : Output) : Prop where
  userId : o.userId = c.userId
  transactionId : o.transactionId = id
  spendable : o.spendable = true
  spentBy : o.spentBy = none
  txid : o.txid = some c.subject.txid
  requested : ∃ spec ∈ c.args.outputs, o.vout = spec.index

/-- The row of the subject after a call: the user's row with the status of the BEEF, or a new row. -/
def SubjectAfter (sdk : Sdk) (c : Internalizing) (s s' : Store) (id : Nat) (t : Transaction) : Prop :=
  (∃ e, c.existing = some e ∧ ∃ stamp, t = { e with status := c.txStatus, updatedAt := stamp }) ∨
    (c.existing = none ∧ (∀ t₀ ∈ s.transactions, t₀.transactionId ≠ id) ∧
      ∃ provenTxId now, t = (subjectRow sdk c provenTxId now).stored id ∧
        SubjectProven c provenTxId s')

/-- What becomes of the rows: proofs of the BEEF, the row of the subject, the outputs taken over
and, for a new subject without proof, a request. -/
structure Internalized (sdk : Sdk) (c : Internalizing) (s s' : Store) (id : Nat) : Prop where
  target : ∀ e, c.existing = some e → e.transactionId = id
  fresh : c.existing = none → ∀ t ∈ s.transactions, t.transactionId ≠ id
  transactions : ∀ t ∈ s'.transactions, t ∈ s.transactions ∨ SubjectAfter sdk c s s' id t
  keptTransactions : ∀ t ∈ s.transactions, t.transactionId ≠ id → t ∈ s'.transactions
  subjectRow : ∃ t ∈ s'.transactions, t.transactionId = id
  outputs : ∀ o ∈ s'.outputs, (∃ o₀ ∈ s.outputs, SameSpend o₀ o) ∨ TakenOutput c id o
  keptOutputs : ∀ o ∈ s.outputs, ∃ o' ∈ s'.outputs, SameSpend o o'
  provenTxs : ∀ p ∈ s'.provenTxs, p ∈ s.provenTxs ∨
    ((∀ q ∈ s.provenTxs, q.txid ≠ p.txid) ∧
      ∃ btx ∈ c.beef.txs, btx.hasProof = true ∧ p.txid = btx.txid)
  keptProvenTxs : ∀ p ∈ s.provenTxs, p ∈ s'.provenTxs
  provenTxReqs : ∀ r ∈ s'.provenTxReqs, r ∈ s.provenTxReqs ∨
    ((∀ q ∈ s.provenTxReqs, q.txid ≠ r.txid) ∧ ProofRequest sdk c id r)
  keptProvenTxReqs : ∀ r ∈ s.provenTxReqs, r ∈ s'.provenTxReqs

/-- The proofs of the BEEF that were stored before the transaction row. -/
structure ProofsStored (ab : Beef) (s s' : Store) : Prop where
  transactions : s'.transactions = s.transactions
  outputs : s'.outputs = s.outputs
  provenTxReqs : s'.provenTxReqs = s.provenTxReqs
  provenTxs : ∀ p ∈ s'.provenTxs, p ∈ s.provenTxs ∨
    ((∀ q ∈ s.provenTxs, q.txid ≠ p.txid) ∧ ∃ btx ∈ ab.txs, btx.hasProof = true ∧ p.txid = btx.txid)
  kept : ∀ p ∈ s.provenTxs, p ∈ s'.provenTxs

variable {s₀ s' : Store}

theorem ProofsStored.step {ab : Beef} {w : Stmt} {n : Nat} (h : ProofsStored ab s₀ s)
    (hexec : w.exec s = .ok (n, s')) (hw : StoresProof ab w) : ProofsStored ab s₀ s' := by
  cases w with
  | insertProvenTx r =>
    refine ⟨(exec_transactions hexec nofun).trans h.transactions,
      (exec_outputs hexec nofun).trans h.outputs,
      (exec_provenTxReqs hexec nofun).trans h.provenTxReqs, fun p hp => ?_, fun p hp => ?_⟩
    · rw [(exec_eq hexec).2, mem_insertProvenTx] at hp
      rcases hp with hold | rfl
      · exact h.provenTxs p hold
      · exact .inr ⟨fun q hq => fresh_of_insertProvenTx hexec q (h.kept q hq), hw⟩
    · rw [(exec_eq hexec).2, mem_insertProvenTx]
      exact .inl (h.kept p hp)
  | _ => exact hw.elim

/-- The transaction row turns stored proofs into the effect. -/
theorem wp_subjectTransaction_internalized {c : Internalizing} {provenTxId : Option Nat}
    (hexisting : ∀ e, c.existing = some e → e ∈ s₀.transactions) (h : ProofsStored c.beef s₀ s)
    (hproven : SubjectProven c provenTxId s) :
    wp Stmt.exec (subjectTransaction sdk c provenTxId)
      (fun id s' => Internalized sdk c s₀ s' id) (fun _ => True) s := by
  unfold subjectTransaction
  cases hex : c.existing with
  | some e =>
    have he : e ∈ s.transactions := by
      rw [h.transactions]
      exact hexisting e hex
    have heffect : ∀ s' : Store,
        (∀ t ∈ s'.transactions, t ∈ s.transactions ∨
          ∃ stamp, t = { e with status := c.txStatus, updatedAt := stamp }) →
        (∀ t ∈ s.transactions, t.transactionId ≠ e.transactionId → t ∈ s'.transactions) →
        (∃ t ∈ s'.transactions, t.transactionId = e.transactionId) →
        s'.outputs = s.outputs → s'.provenTxs = s.provenTxs → s'.provenTxReqs = s.provenTxReqs →
        Internalized sdk c s₀ s' e.transactionId := by
      intro s' hrows hkept hrow hout hproofs hreqs
      rw [h.transactions] at hrows hkept
      rw [h.outputs] at hout
      rw [h.provenTxReqs] at hreqs
      refine ⟨fun e' he' => ?_, fun hnone => absurd (hex.symm.trans hnone) (by rintro ⟨⟩), fun t ht => ?_,
        hkept, hrow, fun o ho => ?_, fun o ho => ?_, ?_, ?_,
        fun r hr => .inl (hreqs ▸ hr), fun r hr => hreqs ▸ hr⟩
      · rw [Option.some.inj (hex.symm.trans he')]
      · exact (hrows t ht).imp_right fun hstamp => .inl ⟨e, hex, hstamp⟩
      · exact .inl ⟨o, hout ▸ ho, SameSpend.refl o⟩
      · exact ⟨o, hout ▸ ho, SameSpend.refl o⟩
      · rw [hproofs]
        exact h.provenTxs
      · rw [hproofs]
        exact h.kept
    by_cases hsat : c.satoshis = 0
    · simp only [hsat, ne_eq, not_true_eq_false, if_false]
      exact heffect s (fun t ht => .inl ht) (fun t ht _ => ht) ⟨e, he, rfl⟩ rfl rfl rfl
    · simp only [hsat, ne_eq, not_false_eq_true, if_true, wp_bind]
      refine wp_exec'_plain (by exact rfl) fun s' hs' => ?_
      rw [wp_pure]
      refine heffect s' (fun t ht => ?_) (fun t ht hne => ?_) ?_ ?_ ?_ ?_
      · rw [hs', mem_updateTransaction] at ht
        obtain ⟨t₀, h₀, rfl⟩ := ht
        split
        · rename_i hid
          obtain rfl : t₀ = e := Table.eq_of_key_eq h₀ he hid
          exact .inr ⟨_, rfl⟩
        · exact .inl h₀
      · rw [hs', mem_updateTransaction]
        exact ⟨t, ht, by rw [if_neg hne]⟩
      · refine ⟨({ status := some c.txStatus } : TransactionPartial).apply s.now e, ?_, rfl⟩
        rw [hs', mem_updateTransaction]
        exact ⟨e, he, by rw [if_pos rfl]⟩
      all_goals rw [hs']; rfl
  | none =>
    simp only [wp_bind, wp_utcNow]
    refine wp_exec (fun n s' hexec => ?_) fun _ _ => trivial
    obtain ⟨hn, hs'⟩ := exec_eq hexec
    have hproofs : s'.provenTxs = s.provenTxs := exec_provenTxs hexec (by rintro ⟨⟩)
    have hout : s'.outputs = s₀.outputs := (exec_outputs hexec (by rintro ⟨⟩)).trans h.outputs
    have hreqs : s'.provenTxReqs = s₀.provenTxReqs :=
      (exec_provenTxReqs hexec (by rintro ⟨⟩)).trans h.provenTxReqs
    refine ⟨fun e he => absurd (hex.symm.trans he) (by rintro ⟨⟩), fun _ t ht => ?_, fun t ht => ?_,
      fun t ht _ => ?_, ?_,
      fun o ho => .inl ⟨o, hout ▸ ho, SameSpend.refl o⟩, fun o ho => ⟨o, hout ▸ ho, SameSpend.refl o⟩,
      ?_, ?_, fun r hr => .inl (hreqs ▸ hr), fun r hr => hreqs ▸ hr⟩
    · rw [hn]
      exact Table.key_ne_fresh (h.transactions ▸ ht)
    · rw [hs', mem_insertTransaction] at ht
      rcases ht with hold | rfl
      · exact .inl (h.transactions ▸ hold)
      · refine .inr (.inr ⟨hex, fun t₀ h₀ => ?_, provenTxId, s.now, by rw [hn]; rfl, ?_⟩)
        · rw [hn]
          exact Table.key_ne_fresh (h.transactions ▸ h₀)
        · unfold SubjectProven at hproven ⊢
          rwa [hproofs]
    · rw [hs', mem_insertTransaction]
      exact .inl (h.transactions ▸ ht)
    · refine ⟨(subjectRow sdk c provenTxId s.now).stored n, ?_, rfl⟩
      rw [hs', mem_insertTransaction, hn]
      exact .inr rfl
    · rw [hproofs]
      exact h.provenTxs
    · rw [hproofs]
      exact h.kept

/-- Every statement after the transaction row keeps the description of the effect. -/
theorem Internalized.step {c : Internalizing} {id : Nat} {w : Stmt} {n : Nat}
    (h : Internalized sdk c s₀ s id) (hexec : w.exec s = .ok (n, s'))
    (hw : InternalizeStmt sdk c id w) : Internalized sdk c s₀ s' id := by
  have hs' := (exec_eq hexec).2
  have hafter : ∀ t, s'.provenTxs = s.provenTxs → SubjectAfter sdk c s₀ s id t →
      SubjectAfter sdk c s₀ s' id t := by
    intro t hproofs ht
    unfold SubjectAfter SubjectProven at ht ⊢
    rwa [hproofs]
  -- what the statement does to outputs and requests; the other tables stay
  have hframe : ∀ (_ : s'.transactions = s.transactions) (_ : s'.provenTxs = s.provenTxs)
      (_ : ∀ o ∈ s'.outputs, (∃ o₀ ∈ s.outputs, SameSpend o₀ o) ∨ TakenOutput c id o)
      (_ : ∀ o ∈ s.outputs, ∃ o' ∈ s'.outputs, SameSpend o o')
      (_ : ∀ r ∈ s'.provenTxReqs, r ∈ s.provenTxReqs ∨
        ((∀ q ∈ s.provenTxReqs, q.txid ≠ r.txid) ∧ ProofRequest sdk c id r))
      (_ : ∀ r ∈ s.provenTxReqs, r ∈ s'.provenTxReqs), Internalized sdk c s₀ s' id := by
    intro htx hproofs hout hkept hreqs hkeptReqs
    refine ⟨h.target, h.fresh, fun t ht => ?_, fun t ht hne => ?_, ?_, fun o ho => ?_, fun o ho => ?_, ?_, ?_,
      fun r hr => ?_, fun r hr => hkeptReqs r (h.keptProvenTxReqs r hr)⟩
    · exact (h.transactions t (htx ▸ ht)).imp_right (hafter t hproofs)
    · rw [htx]
      exact h.keptTransactions t ht hne
    · rw [htx]
      exact h.subjectRow
    · rcases hout o ho with ⟨o₁, h₁, hsame⟩ | hnew
      · rcases h.outputs o₁ h₁ with ⟨o₂, h₂, hsame₂⟩ | htaken
        · exact .inl ⟨o₂, h₂, hsame₂.trans hsame⟩
        · obtain ⟨spec, hspec, hvout⟩ := htaken.requested
          exact .inr ⟨hsame.userId.trans htaken.userId,
            hsame.transactionId.trans htaken.transactionId,
            hsame.spendable.trans htaken.spendable, hsame.spentBy.trans htaken.spentBy,
            hsame.txid.trans htaken.txid, spec, hspec, hsame.vout.trans hvout⟩
      · exact .inr hnew
    · obtain ⟨o₁, h₁, hsame⟩ := h.keptOutputs o ho
      obtain ⟨o₂, h₂, hsame₂⟩ := hkept o₁ h₁
      exact ⟨o₂, h₂, hsame.trans hsame₂⟩
    · rw [hproofs]
      exact h.provenTxs
    · rw [hproofs]
      exact h.keptProvenTxs
    · rcases hreqs r hr with hold | ⟨hfresh, hnew⟩
      · exact h.provenTxReqs r hold
      · exact .inr ⟨fun q hq => hfresh q (h.keptProvenTxReqs q hq), hnew⟩
  cases w with
  | insertOutput r =>
    obtain ⟨huser, hid, hspendable, hspent, htxid, hspec⟩ := hw
    have hreqs : s'.provenTxReqs = s.provenTxReqs := exec_provenTxReqs hexec (by rintro ⟨⟩)
    refine hframe (exec_transactions hexec (by rintro ⟨⟩)) (exec_provenTxs hexec (by rintro ⟨⟩)) (fun o ho => ?_)
      (fun o ho => ?_) (fun r hr => .inl (hreqs ▸ hr)) (fun r hr => hreqs ▸ hr)
    · rw [hs', mem_insertOutput] at ho
      rcases ho with hold | rfl
      · exact .inl ⟨o, hold, SameSpend.refl o⟩
      · exact .inr ⟨huser, hid, hspendable, hspent, htxid, hspec⟩
    · refine ⟨o, ?_, SameSpend.refl o⟩
      rw [hs', mem_insertOutput]
      exact .inl ho
  | updateOutput i p =>
    obtain ⟨hspendable, hspent, htxid⟩ := hw
    have hreqs : s'.provenTxReqs = s.provenTxReqs := exec_provenTxReqs hexec (by rintro ⟨⟩)
    have hsame : ∀ o, SameSpend o (if o.outputId = i then p.apply s.now o else o) := by
      intro o
      split
      · exact ⟨rfl, rfl, rfl, by simp [OutputPartial.apply, hspendable],
          by simp [OutputPartial.apply, hspendable, hspent, setId],
          by simp [OutputPartial.apply, htxid], rfl⟩
      · exact SameSpend.refl o
    refine hframe (exec_transactions hexec (by rintro ⟨⟩)) (exec_provenTxs hexec (by rintro ⟨⟩)) (fun o ho => ?_)
      (fun o ho => ?_) (fun r hr => .inl (hreqs ▸ hr)) (fun r hr => hreqs ▸ hr)
    · rw [hs', mem_updateOutput] at ho
      obtain ⟨o₀, h₀, rfl⟩ := ho
      exact .inl ⟨o₀, h₀, hsame o₀⟩
    · refine ⟨_, ?_, hsame o⟩
      rw [hs', mem_updateOutput]
      exact ⟨o, ho, rfl⟩
  | insertProvenTxReq r =>
    have hout : s'.outputs = s.outputs := exec_outputs hexec (by rintro ⟨⟩)
    have hr : ProofRequest sdk c id r := hw
    have hfresh := fresh_of_insertProvenTxReq hexec
    refine hframe (exec_transactions hexec (by rintro ⟨⟩)) (exec_provenTxs hexec (by rintro ⟨⟩))
      (fun o ho => .inl ⟨o, hout ▸ ho, SameSpend.refl o⟩)
      (fun o ho => ⟨o, hout ▸ ho, SameSpend.refl o⟩) (fun q hq => ?_) (fun q hq => ?_)
    · rw [hs', mem_insertProvenTxReq] at hq
      rcases hq with hold | rfl
      · exact .inl hold
      · exact .inr ⟨hfresh,
          ⟨hr.txid, hr.status, hr.provenTxId, hr.isNew, hr.unproven, hr.notify, hr.rawTx⟩⟩
    · rw [hs', mem_insertProvenTxReq]
      exact .inl hq
  | _ =>
    have hcore := Stmt.OffCore.sameCore hw hexec
    exact hframe hcore.transactions hcore.provenTxs
      (fun o ho => .inl ⟨o, hcore.outputs ▸ ho, SameSpend.refl o⟩)
      (fun o ho => ⟨o, hcore.outputs ▸ ho, SameSpend.refl o⟩)
      (fun r hr => .inl (hcore.provenTxReqs ▸ hr)) (fun r hr => hcore.provenTxReqs ▸ hr)

/-- What a call does: it leaves the core tables alone, or it has the effect above. -/
theorem wp_internalizeAction {auth : String} {args : StorageInternalizeActionArgs} {Q : Store → Prop}
    (hsame : ∀ s', SameCore s s' → Q s')
    (hok : ∀ userId c id s₁ s', SameCore s s₁ → Prepared sdk tracker s₁ userId args c →
      Internalized sdk c s s' id → Q s') :
    wp Stmt.exec (internalizeAction sdk tracker auth args) (fun _ => Q) Q s := by
  unfold internalizeAction
  rw [wp_bind]
  have huser : (findOrInsertUser auth).Emits Stmt.OffCore :=
    emits_findOrInsertUser auth fun u => by simp [Stmt.OffCore, Stmt.target]
  refine wp_offCore huser (fun user s₁ hcore => ?_) hsame
  obtain ⟨user, isNew⟩ := user
  refine wp_storageInternalizeAction (fun s' h => hsame s' (hcore.trans h))
    fun c s₂ hprep hcore₂ => ?_
  have hcore₂ := hcore.trans hcore₂
  have hexisting : ∀ e, c.existing = some e → e ∈ s.transactions := by
    intro e he
    have hfound := hprep.existing
    rw [he, hcore.transactions] at hfound
    exact (Table.first_some (verifyOneOrNone_first hfound).symm).1
  have hstart : ProofsStored c.beef s s₂ :=
    ⟨hcore₂.transactions, hcore₂.outputs, hcore₂.provenTxReqs,
      fun p hp => .inl (hcore₂.provenTxs ▸ hp), fun p hp => hcore₂.provenTxs ▸ hp⟩
  refine wp_mono (wp_internalizeBody (A := ProofsStored c.beef s)
    (C := fun id s' => Internalized sdk c s s' id) hprep
    (fun w s n s' hw h hexec => h.step hexec hw)
    (fun id s' h hproven => wp_subjectTransaction_internalized hexisting h hproven)
    (fun id w s n s' hw h hexec => h.step hexec hw) hstart) ?_ fun _ h => h
  rintro _ s' ⟨id, h⟩
  exact hok user.userId c id s₁ s' hcore hprep h

end WalletToolbox.Storage
