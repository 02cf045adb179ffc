import WalletToolbox.Laws.InternalizeAction
import WalletToolbox.Laws.Proofs
import WalletToolbox.Laws.Reorg
import WalletToolbox.Storage.Reprove
import WalletToolbox.System

/-! # A stored proof is one proof

The height, the block hash, the merkle path and the merkle root of a row of `proven_txs` belong
together when they come from one answer of the services or from one bump.
Whatever inserts a proof keeps them together; a new proof after a reorganization does only when its
path and its root are the stored ones, since no update writes these two columns. -/

namespace WalletToolbox.Reprove

open WalletToolbox.Lib WalletToolbox.Storage WalletToolbox.Monitor
open WalletToolbox.Lib.Prog hiding pure exec

/-- The columns of a proof. -/
structure Proof where
  height : Nat
  blockHash : String
  merklePath : Bytes
  merkleRoot : String
deriving DecidableEq

end WalletToolbox.Reprove

namespace WalletToolbox

open WalletToolbox.Reprove WalletToolbox.Storage

def Storage.ProvenTx.proof (p : ProvenTx) : Proof where
  height := p.height
  blockHash := p.blockHash
  merklePath := p.merklePath
  merkleRoot := p.merkleRoot

/-- The proof that the services give for a transaction now. -/
def Services.proof (services : Services) (txid : String) : Option Proof :=
  match (services.getMerklePath txid).merklePath, (services.getMerklePath txid).header with
  | some merklePath, some header => some ⟨header.height, header.hash, merklePath, header.merkleRoot⟩
  | _, _ => none

/-- The proof that a transaction has under a bump, which does not know the hash of its block. -/
def Sdk.bumpProof (sdk : Sdk) (bump : MerklePath) (txid : String) : Proof where
  height := bump.blockHeight
  blockHash := ""
  merklePath := (sdk.bumpBytes bump).toOption.getD []
  merkleRoot := (sdk.computeRoot bump (some txid)).toOption.getD ""

end WalletToolbox

namespace WalletToolbox.Reprove

open WalletToolbox.Lib WalletToolbox.Storage WalletToolbox.Monitor
open WalletToolbox.Lib.Prog hiding pure exec

theorem proof_of_answer {services : Services} {txid : String} {merklePath : Bytes}
    {header : BlockHeader} (hpath : (services.getMerklePath txid).merklePath = some merklePath)
    (hheader : (services.getMerklePath txid).header = some header) :
    services.proof txid = some ⟨header.height, header.hash, merklePath, header.merkleRoot⟩ := by
  simp only [Services.proof, hpath, hheader]

variable {Answer : Proof → Prop} {s s' : Store}

/-- Every stored proof is one of the answers. -/
def OneProof (Answer : Proof → Prop) (s : Store) : Prop :=
  ∀ p ∈ s.provenTxs, Answer p.proof

/-! ## Insertions -/

/-- A statement that inserts proofs only as they were answered, and updates none. -/
def Inserts (Answer : Proof → Prop) : Stmt → Prop
  | .insertProvenTx r => Answer r.proof
  | .updateProvenTx _ _ => False
  | _ => True

theorem OneProof.insert (w : Stmt) (s : Store) (n : Nat) (s' : Store) (hw : Inserts Answer w)
    (h : OneProof Answer s) (hexec : w.exec s = .ok (n, s')) : OneProof Answer s' := by
  have hframe : w.target ≠ .provenTxs → OneProof Answer s' := by
    intro htarget p hp
    rw [exec_provenTxs hexec htarget] at hp
    exact h p hp
  cases w with
  | insertProvenTx r =>
    intro p hp
    rw [(exec_eq hexec).2, mem_insertProvenTx] at hp
    rcases hp with hold | rfl
    · exact h p hold
    · exact hw
  | updateProvenTx id p => exact hw.elim
  | _ => exact hframe nofun

/-- The services give answers only. -/
def Answers (Answer : Proof → Prop) (services : Services) : Prop :=
  ∀ txid proof, services.proof txid = some proof → Answer proof

/-- The bumps of a BEEF give answers only. -/
def Bumps (Answer : Proof → Prop) (sdk : Sdk) : Prop :=
  ∀ bump txid, Answer (sdk.bumpProof bump txid)

theorem emits_saveProof {services : Services} (hanswers : Answers Answer services)
    {req : ProvenTxReq} {merklePath : Bytes} {header : BlockHeader}
    (hpath : (services.getMerklePath req.txid).merklePath = some merklePath)
    (hheader : (services.getMerklePath req.txid).header = some header) :
    (saveProof req merklePath header).Emits (Inserts Answer) := by
  have hlink : ∀ (reqId : Nat) (txid : String) (id : Nat) (isNew : Bool), (do
      exec' (.updateProvenTxReq reqId { provenTxId := some id, status := some .completed })
      if isNew then
        let matching ← find fun s => s.transactions.find (·.txid == some txid)
        forM matching fun t =>
          exec' (.updateTransaction t.transactionId
            { status := some .completed, provenTxId := some id })
      pure id : StorageProg Nat).Emits (Inserts Answer) := by
    intro reqId txid id isNew
    refine Emits.bind (emits_exec' trivial) fun _ => ?_
    cases isNew with
    | false => exact Emits.pure _
    | true =>
      exact Emits.bind (Emits.ask _) fun matching =>
        Emits.bind (Emits.forM fun t _ => emits_exec' trivial) fun _ => Emits.pure _
  unfold saveProof
  refine Emits.bind (Emits.ask _) fun now => Emits.bind (Emits.attempt ?_) fun saved => ?_
  · unfold updateProvenTxReqWithNewProvenTx
    refine Emits.atomically (Emits.bind (Emits.ask _) fun existing => ?_)
    cases existing with
    | some ep => exact hlink _ _ _ false
    | none =>
      refine Emits.bind (Emits.exec ?_) fun id => hlink _ _ id true
      exact hanswers _ _ (proof_of_answer hpath hheader)
  · cases saved <;> exact Emits.pure _

theorem emits_getProofs {services : Services} (hanswers : Answers Answer services)
    (params : ProofParams) (reqs : List ProvenTxReq) :
    (getProofs services params reqs).Emits (Inserts Answer) := by
  have hupdate : ∀ (req : ProvenTxReq) (p : ProvenTxReqPartial) (r : ProofResult), (do
      ignore (exec (.updateProvenTxReq req.provenTxReqId p))
      pure r : StorageProg ProofResult).Emits (Inserts Answer) :=
    fun _ _ _ => Emits.bind (emits_ignore (Emits.exec trivial)) fun _ => Emits.pure _
  refine Emits.foldlM fun result req _ => Emits.bind ?_ fun found => ?_
  · unfold getProof
    split
    · exact hupdate _ _ _
    · split
      · unfold applyProofTimeout
        split <;> exact hupdate _ _ _
      · dsimp only
        split
        · rename_i merklePath header hpath hheader
          split
          · exact Emits.pure _
          · exact emits_saveProof hanswers hpath hheader
        · split
          · exact hupdate _ _ _
          · exact Emits.pure _
  · cases found <;> exact Emits.pure _

/-- What a call of internalizeAction issues after its proofs inserts and updates none. -/
theorem inserts_of_internalizeStmt {sdk : Sdk} {c : Internalizing} {id : Nat} (w : Stmt)
    (hw : InternalizeStmt sdk c id w) : Inserts Answer w := by
  cases w with
  | insertProvenTx r => exact absurd hw (by simp [InternalizeStmt, Stmt.OffCore, Stmt.target])
  | updateProvenTx i p => exact absurd hw (by simp [InternalizeStmt, Stmt.OffCore, Stmt.target])
  | _ => trivial

theorem emits_provenRow {sdk : Sdk} (hbumps : Bumps Answer sdk) (now : Nat) (txid : String)
    (bump : MerklePath) (rawTx : Bytes) :
    Inserts Answer (.insertProvenTx (provenRow now txid bump ((sdk.bumpBytes bump).toOption.getD [])
      rawTx ((sdk.computeRoot bump (some txid)).toOption.getD ""))) :=
  hbumps bump txid

theorem emits_internalizeBody {sdk : Sdk} (hbumps : Bumps Answer sdk) (c : Internalizing) :
    (internalizeBody sdk c).Emits (Inserts Answer) := by
  unfold internalizeBody
  refine Emits.bind (Emits.forM fun btx _ => ?_) fun _ => Emits.bind ?_ fun provenTxId =>
    Emits.bind ?_ fun t => ?_
  · unfold storeAncestor
    split
    · refine Emits.bind (Emits.ask _) fun rows => Emits.bind (Emits.ofExcept _) fun existing => ?_
      split
      · exact Emits.bind (Emits.ask _) fun now =>
          emits_ignore (Emits.exec (emits_provenRow hbumps _ _ _ _))
      · exact Emits.pure ()
    · exact Emits.pure ()
  · unfold subjectProvenTxId subjectProof
    split
    · split
      · exact Emits.pure none
      · rename_i bump _
        split
        · exact Emits.fail _
        · exact Emits.fail _
        · rename_i merkleRoot merklePath hroot hpath
          refine Emits.bind (Emits.ask _) fun rows => Emits.bind (Emits.ofExcept _) fun found => ?_
          cases found with
          | some ep => exact Emits.pure _
          | none =>
            refine Emits.bind (Emits.ask _) fun now => Emits.bind (Emits.exec ?_) fun _ => Emits.pure _
            have hrow := emits_provenRow hbumps now c.subject.txid bump
              ((sdk.txBytes c.subject.tx).toOption.getD [])
            rw [hroot, hpath] at hrow
            exact hrow
    · exact Emits.pure none
  · unfold subjectTransaction
    split
    · split
      · exact Emits.bind (emits_exec' trivial) fun _ => Emits.pure _
      · exact Emits.pure _
    · exact Emits.bind (Emits.ask _) fun now => Emits.exec trivial
  · refine Emits.mono inserts_of_internalizeStmt (K := InternalizeStmt sdk c t) ?_
    exact Emits.bind (Emits.forM fun label _ => emits_addLabel label) fun _ =>
      Emits.bind (Emits.forM fun spec hspec => emits_internalizeOutput hspec) fun _ =>
        emits_requestProof

theorem emits_addNetSatoshis {userId : Nat} {subject : Subject} {isMerge : Bool} {basketId : Nat}
    {satoshis : Int} {spec : InternalizeOutput} {K : Stmt → Prop} :
    (addNetSatoshis userId subject isMerge basketId satoshis spec).Emits K := by
  have hfind : ∀ txid vout, (findOwnOutput userId txid vout).Emits K :=
    fun _ _ => Emits.bind (Emits.ask _) fun _ => Emits.ofExcept _
  unfold addNetSatoshis
  cases spec with
  | walletPayment i sender pre suf =>
    dsimp only
    split
    · refine Emits.bind (hfind _ _) fun found => ?_
      cases found with
      | none => exact Emits.pure _
      | some o =>
        dsimp only
        split <;> exact Emits.pure _
    · exact Emits.pure _
  | basketInsertion i name custom tags =>
    dsimp only
    split
    · refine Emits.bind (hfind _ _) fun found => ?_
      cases found with
      | none => exact Emits.pure _
      | some o =>
        dsimp only
        split <;> exact Emits.pure _
    · exact Emits.pure _

theorem emits_internalizeAction {sdk : Sdk} (hbumps : Bumps Answer sdk) (tracker : ChainTracker)
    (auth : String) (args : StorageInternalizeActionArgs) :
    (internalizeAction sdk tracker auth args).Emits (Inserts Answer) := by
  refine Emits.bind (emits_findOrInsertUser auth fun _ => trivial) fun user => ?_
  refine Emits.bind ?_ fun c =>
    Emits.bind (Emits.atomically (emits_internalizeBody hbumps c)) fun _ => Emits.pure _
  unfold prepareInternalize
  refine Emits.bind (Emits.ofExcept _) fun beef => Emits.bind (Emits.ofExcept _) fun _ =>
    Emits.bind (Emits.ofExcept _) fun subject => Emits.bind (Emits.ofExcept _) fun _ =>
    Emits.bind (Emits.ask _) fun rows => Emits.bind (Emits.ofExcept _) fun existing =>
    Emits.bind (Emits.ofExcept _) fun _ =>
    Emits.bind (emits_findOrInsertOutputBasket _ _ fun _ => trivial) fun basket =>
    Emits.bind (Emits.foldlM fun _ _ _ => emits_addNetSatoshis) fun _ => Emits.pure _

/-! ## Updates -/

/-- The new proof is of the same block, or has the same path and root. -/
def Proof.Fits (held answer : Proof) : Prop :=
  (held.height = answer.height ∧ held.blockHash = answer.blockHash) ∨
    (held.merklePath = answer.merklePath ∧ held.merkleRoot = answer.merkleRoot)

/-- A proof of the same block or with the same path leaves the row one of the two proofs. -/
theorem answer_of_fits {held answer : Proof} (hheld : Answer held) (hanswer : Answer answer)
    (hfits : held.Fits answer) :
    Answer ⟨answer.height, answer.blockHash, held.merklePath, held.merkleRoot⟩ := by
  rcases hfits with ⟨hheight, hhash⟩ | ⟨hpath, hroot⟩
  · rw [← hheight, ← hhash]
    exact hheld
  · rw [hpath, hroot]
    exact hanswer

/-- The update of one row with the block of an answer. -/
def blockUpdate (answer : Proof) : ProvenTxPartial where
  height := some answer.height
  blockHash := some answer.blockHash

/-- A row of a run of updates: its path and root are the first ones, and its block is the first one
or the one that the services give now. -/
structure Descends (services : Services) (s : Store) (p : ProvenTx) : Prop where
  parent : ∃ q ∈ s.provenTxs, q.provenTxId = p.provenTxId ∧ q.merklePath = p.merklePath ∧
    q.merkleRoot = p.merkleRoot ∧
    ((q.height = p.height ∧ q.blockHash = p.blockHash) ∨
      ∃ answer, services.proof q.txid = some answer ∧ answer.height = p.height ∧
        answer.blockHash = p.blockHash)

/-- A store in the middle of a run of updates. -/
structure Updating (Answer : Proof → Prop) (services : Services) (s s' : Store) : Prop where
  oneProof : OneProof Answer s'
  descends : ∀ p ∈ s'.provenTxs, Descends services s p

theorem Updating.refl {services : Services} (h : OneProof Answer s) :
    Updating Answer services s s where
  oneProof := h
  descends := fun p hp => ⟨p, hp, rfl, rfl, rfl, .inl ⟨rfl, rfl⟩⟩

/-- One update keeps all rows whole when the rows that it meets fit the answer. -/
theorem OneProof.update {n id : Nat} {answer : Proof} (h : OneProof Answer s) (hanswer : Answer answer)
    (hfits : ∀ p ∈ s.provenTxs, p.provenTxId = id → p.proof.Fits answer)
    (hexec : (Stmt.updateProvenTx id (blockUpdate answer)).exec s = .ok (n, s')) :
    OneProof Answer s' := by
  intro p hp
  rw [(exec_eq hexec).2, mem_updateProvenTx] at hp
  obtain ⟨p₀, hp₀, rfl⟩ := hp
  split
  · rename_i hid
    exact answer_of_fits (h p₀ hp₀) hanswer (hfits p₀ hp₀ hid)
  · exact h p₀ hp₀

theorem Updating.update {services : Services} {s₁ : Store} {n : Nat} {ptx : ProvenTx}
    {answer : Proof} (h : Updating Answer services s s₁) (hanswers : Answers Answer services)
    (hptx : ptx ∈ s.provenTxs) (hanswer : services.proof ptx.txid = some answer)
    (hfits : ptx.proof.Fits answer)
    (hexec : (Stmt.updateProvenTx ptx.provenTxId (blockUpdate answer)).exec s₁ = .ok (n, s')) :
    Updating Answer services s s' := by
  have hparent : ∀ p ∈ s₁.provenTxs, p.provenTxId = ptx.provenTxId →
      ptx.merklePath = p.merklePath ∧ ptx.merkleRoot = p.merkleRoot ∧
        ((ptx.height = p.height ∧ ptx.blockHash = p.blockHash) ∨
          (answer.height = p.height ∧ answer.blockHash = p.blockHash)) := by
    intro p hp hid
    obtain ⟨q, hq, hqid, hpath, hroot, hblock⟩ := (h.descends p hp).parent
    have heq : q = ptx := Table.eq_of_key_eq hq hptx (hqid.trans hid)
    subst heq
    refine ⟨hpath, hroot, hblock.imp_right ?_⟩
    rintro ⟨a, ha, hsame⟩
    rw [hanswer, Option.some_inj] at ha
    exact ha ▸ hsame
  constructor
  · refine h.oneProof.update (hanswers _ _ hanswer) (fun p hp hid => ?_) hexec
    obtain ⟨hpath, hroot, ⟨hheight, hhash⟩ | ⟨hheight, hhash⟩⟩ := hparent p hp hid
    · simpa only [Proof.Fits, ProvenTx.proof, hheight, hhash, hpath, hroot] using hfits
    · exact .inl ⟨hheight.symm, hhash.symm⟩
  · intro p hp
    rw [(exec_eq hexec).2, mem_updateProvenTx] at hp
    obtain ⟨p₀, hp₀, rfl⟩ := hp
    split
    · rename_i hid
      obtain ⟨hpath, hroot, -⟩ := hparent p₀ hp₀ hid
      exact ⟨ptx, hptx, hid.symm, hpath, hroot, .inr ⟨answer, hanswer, rfl, rfl⟩⟩
    · exact h.descends p₀ hp₀

/-! ## The three ways to prove again -/

/-- The record with another proof. -/
def moved (ptx : ProvenTx) (answer : Proof) : ProvenTx :=
  { ptx with
    height := answer.height, blockHash := answer.blockHash, merklePath := answer.merklePath
    merkleRoot := answer.merkleRoot }

theorem wp_reproveProven {services : Services} {ptx : ProvenTx} (hanswers : Answers Answer services)
    (h : OneProof Answer s)
    (hfits : ∀ p ∈ s.provenTxs, p.provenTxId = ptx.provenTxId → ∀ answer,
      services.proof ptx.txid = some answer → ptx.proof = answer ∨ p.proof.Fits answer) :
    wp Stmt.exec (reproveProven services ptx false) (fun _ => OneProof Answer) (OneProof Answer) s := by
  unfold reproveProven
  split
  · rename_i merklePath header hpath hheader
    have hproof := proof_of_answer hpath hheader
    split
    · exact h
    · rename_i hchanged
      rw [if_pos (Bool.not_false ▸ rfl), wp_bind]
      refine wp_exec' (fun n s' hexec => ?_) fun _ _ => h
      refine h.update (hanswers _ _ hproof) (fun p hp hid => ?_) hexec
      refine (hfits p hp hid _ hproof).resolve_left fun hsame => hchanged ?_
      simp only [ProvenTx.proof, Proof.mk.injEq] at hsame
      exact ⟨hsame.1, hsame.2.1, hsame.2.2.2, hsame.2.2.1⟩
  · exact h

/-- In dry-run mode nothing is written, and an updated record is the old one with another proof. -/
theorem run_reproveProven_dry (services : Services) (ptx : ProvenTx) (s : Store) :
    ∃ result, (reproveProven services ptx true).run Stmt.exec s = (.ok result, s) ∧
      ∀ ru, result.updated = some ru → ∃ answer, services.proof ptx.txid = some answer ∧
        ptx.proof ≠ answer ∧ ru.update = moved ptx answer := by
  unfold reproveProven
  split
  · rename_i merklePath header hpath hheader
    split
    · exact ⟨_, rfl, nofun⟩
    · rename_i hchanged
      refine ⟨_, rfl, ?_⟩
      rintro ru ⟨⟩
      refine ⟨_, proof_of_answer hpath hheader, fun hsame => hchanged ?_, rfl⟩
      simp only [ProvenTx.proof, Proof.mk.injEq] at hsame
      exact ⟨hsame.1, hsame.2.1, hsame.2.2.2, hsame.2.2.1⟩
  · exact ⟨_, rfl, nofun⟩

/-- The records that `reprove_header` is about to write. -/
def Pending (services : Services) (hash : String) (s : Store) (u : ProvenTx) : Prop :=
  ∃ ptx ∈ s.provenTxs, ptx.blockHash = hash ∧ ∃ answer, services.proof ptx.txid = some answer ∧
    ptx.proof ≠ answer ∧ u = moved ptx answer

/-- `reprove_header` up to its writes. -/
theorem wp_reproveHeader {services : Services} {hash : String} {Q : ReproveHeaderResult → Store → Prop}
    {E : Store → Prop} (h : ∀ updates : List ProvenTx, (∀ u ∈ updates, Pending services hash s u) →
      ∀ result : ReproveHeaderResult, result.updated = updates →
        wp Stmt.exec (forM updates fun u => exec' (.updateProvenTx u.provenTxId u.reproveUpdate))
          (fun _ => Q result) E s) :
    wp Stmt.exec (reproveHeader services hash) Q E s := by
  unfold reproveHeader
  rw [wp_bind, wp_ask, wp_bind]
  refine wp_mono (wp_foldlM (I := fun r s' => s' = s ∧ ∀ u ∈ r.updates, Pending services hash s u)
    (E := E) (fun ptx hptx r s' hr => ?_) ⟨rfl, nofun⟩) ?_ fun _ h => h
  · obtain ⟨rfl, hr⟩ := hr
    obtain ⟨hmem, hhash⟩ := List.mem_filter.mp hptx
    obtain ⟨result, hrun, hupdated⟩ := run_reproveProven_dry services ptx s'
    rw [wp_bind, wp, hrun]
    refine ⟨rfl, fun u hu => ?_⟩
    unfold Reproving.add at hu
    split at hu
    · exact hr u hu
    · split at hu
      · exact hr u hu
      · split at hu
        · rename_i ru hru
          rcases List.mem_append.mp hu with hu | hu
          · exact hr u hu
          · obtain ⟨answer, hanswer, hne, hupdate⟩ := hupdated ru hru
            rw [List.mem_singleton.mp hu]
            exact ⟨ptx, hmem, beq_iff_eq.mp hhash, answer, hanswer, hne, hupdate⟩
        · exact hr u hu
  · rintro r s' ⟨rfl, hr⟩
    rw [wp_bind]
    exact h r.updates hr _ rfl

/-- What `reprove_header` may meet in the rows of the block: the answer they hold already, or one
with their path and root. The last column is the stamp that the report does not take over. -/
def HeaderFits (services : Services) (hash : String) (s : Store) : Prop :=
  ∀ p ∈ s.provenTxs, p.blockHash = hash → ∀ answer, services.proof p.txid = some answer →
    p.proof = answer ∨ (p.merklePath = answer.merklePath ∧ p.merkleRoot = answer.merkleRoot ∧
      p.updatedAt = toSeconds s.now)

theorem wp_reproveHeader_oneProof {services : Services} {hash : String}
    (hanswers : Answers Answer services) (h : OneProof Answer s)
    (hfits : HeaderFits services hash s) :
    wp Stmt.exec (reproveHeader services hash) (fun _ => OneProof Answer) (OneProof Answer) s := by
  refine wp_reproveHeader fun updates hupdates _ _ => ?_
  refine wp_mono (wp_forM (I := Updating Answer services s) (E := OneProof Answer)
    (fun u hu s₁ h₁ => ?_) (Updating.refl h)) (fun _ _ h' => h'.oneProof) fun _ h' => h'
  obtain ⟨ptx, hptx, hhash, answer, hanswer, hne, rfl⟩ := hupdates u hu
  refine wp_exec' (fun n s' hexec => ?_) fun _ _ => h₁.oneProof
  refine h₁.update hanswers hptx hanswer ?_ hexec
  obtain ⟨hpath, hroot, -⟩ := (hfits ptx hptx hhash answer hanswer).resolve_left hne
  exact .inr ⟨hpath, hroot⟩

/-- A record that keeps path, root and stamp is the row that its update leaves. -/
theorem apply_moved {ptx p : ProvenTx} {answer : Proof} {now : Nat}
    (hpath : ptx.merklePath = answer.merklePath) (hroot : ptx.merkleRoot = answer.merkleRoot)
    (hstamp : ptx.updatedAt = toSeconds now) (hp : p = ptx ∨ p = moved ptx answer) :
    (moved ptx answer).reproveUpdate.apply now p = moved ptx answer := by
  rcases hp with rfl | rfl <;>
    simp only [ProvenTx.reproveUpdate, ProvenTxPartial.apply, moved, Option.getD_none,
      Option.getD_some, hpath, hroot, hstamp]

/-- The records of a list that are written one after another are all in the table at the end. -/
theorem wp_writes {services : Services} {hash : String} (hfits : HeaderFits services hash s)
    {updates : List ProvenTx} (hupdates : ∀ u ∈ updates, Pending services hash s u)
    (s₁ : Store) (hnow : s₁.now = s.now) (written : List ProvenTx)
    (hwritten : ∀ u ∈ written, Pending services hash s u ∧ u ∈ s₁.provenTxs)
    (hheld : ∀ ptx ∈ s.provenTxs, ∀ answer, services.proof ptx.txid = some answer →
      ptx ∈ s₁.provenTxs ∨ moved ptx answer ∈ s₁.provenTxs) :
    wp Stmt.exec (forM updates fun u => exec' (.updateProvenTx u.provenTxId u.reproveUpdate))
      (fun _ s' => ∀ u ∈ written ++ updates, u ∈ s'.provenTxs) (fun _ => True) s₁ := by
  induction updates generalizing s₁ written with
  | nil =>
    intro u hu
    exact (hwritten u (List.append_nil written ▸ hu)).2
  | cons u rest ih =>
    rw [List.forM_cons, wp_bind]
    refine wp_exec' (fun n s₂ hexec => ?_) fun _ _ => trivial
    obtain ⟨ptx, hptx, hhash, answer, hanswer, hne, rfl⟩ := hupdates u List.mem_cons_self
    obtain ⟨hpath, hroot, hstamp⟩ := (hfits ptx hptx hhash answer hanswer).resolve_left hne
    rw [← hnow] at hstamp
    -- A row that is the old or the new record becomes the new one; others are not touched.
    have hbecomes : ∀ p, p = ptx ∨ p = moved ptx answer → p ∈ s₁.provenTxs →
        moved ptx answer ∈ s₂.provenTxs := by
      intro p hp hmem
      rw [(exec_eq hexec).2, mem_updateProvenTx]
      refine ⟨p, hmem, ?_⟩
      have hid : p.provenTxId = (moved ptx answer).provenTxId := by rcases hp with rfl | rfl <;> rfl
      rw [if_pos hid, apply_moved hpath hroot hstamp hp]
    have hkept : ∀ p ∈ s₁.provenTxs, p.provenTxId ≠ ptx.provenTxId → p ∈ s₂.provenTxs := by
      intro p hmem hid
      rw [(exec_eq hexec).2, mem_updateProvenTx]
      exact ⟨p, hmem, (if_neg hid).symm⟩
    have hnew : moved ptx answer ∈ s₂.provenTxs := by
      rcases hheld ptx hptx answer hanswer with hmem | hmem
      · exact hbecomes ptx (.inl rfl) hmem
      · exact hbecomes _ (.inr rfl) hmem
    have hsame : ∀ q ∈ s.provenTxs, q.provenTxId = ptx.provenTxId → q = ptx :=
      fun q hq hid => Table.eq_of_key_eq hq hptx hid
    have hdone := ih (fun v hv => hupdates v (List.mem_cons_of_mem _ hv)) s₂
      ((exec_now hexec).trans hnow) (written ++ [moved ptx answer]) ?_ ?_
    · simpa only [List.append_assoc, List.singleton_append] using hdone
    · intro v hv
      rcases List.mem_append.mp hv with hv | hv
      · refine ⟨(hwritten v hv).1, ?_⟩
        obtain ⟨q, hq, -, answer', hanswer', -, rfl⟩ := (hwritten v hv).1
        by_cases hid : q.provenTxId = ptx.provenTxId
        · obtain rfl := hsame q hq hid
          rw [hanswer, Option.some_inj] at hanswer'
          exact hanswer' ▸ hnew
        · exact hkept _ (hwritten _ hv).2 hid
      · rw [List.mem_singleton.mp hv]
        exact ⟨hupdates _ List.mem_cons_self, hnew⟩
    · intro q hq answer' hanswer'
      by_cases hid : q.provenTxId = ptx.provenTxId
      · obtain rfl := hsame q hq hid
        rw [hanswer, Option.some_inj] at hanswer'
        exact .inr (hanswer' ▸ hnew)
      · exact (hheld q hq answer' hanswer').imp (hkept _ · hid) (hkept _ · hid)

/-- What `reprove_header` reports as updated is in the table when it returns. -/
theorem reproveHeader_reports {services : Services} {hash : String}
    (hfits : HeaderFits services hash s) {result : ReproveHeaderResult}
    (hrun : (reproveHeader services hash).run Stmt.exec s = (.ok result, s')) :
    ∀ u ∈ result.updated, u ∈ s'.provenTxs := by
  have hwp : wp Stmt.exec (reproveHeader services hash)
      (fun result s' => ∀ u ∈ result.updated, u ∈ s'.provenTxs) (fun _ => True) s := by
    refine wp_reproveHeader fun updates hupdates result hresult => ?_
    have hwrites := wp_writes hfits hupdates s rfl [] nofun
      fun ptx hptx _ _ => .inl hptx
    exact wp_mono hwrites (fun _ s' h u hu => h u (hresult ▸ hu)) fun _ h => h
  exact wp_ok hwp hrun

theorem wp_processHeader_oneProof {services : Services} {faults : Reorg.Faults} {hash : String}
    (hanswers : Answers Answer services) (h : OneProof Answer s)
    (hfits : faults.find = none → ∀ p ∈ s.provenTxs, p.blockHash = hash →
      faults.update p.provenTxId = none → ∀ answer, services.proof p.txid = some answer →
        p.proof.Fits answer) :
    wp Stmt.exec (Reorg.processHeader services faults hash) (fun _ => OneProof Answer)
      (OneProof Answer) s := by
  unfold Reorg.processHeader
  cases hfind : faults.find with
  | some e => exact h
  | none =>
    dsimp only
    rw [wp_bind, wp_ask, wp_bind]
    refine wp_mono (wp_foldlM (I := fun _ => Updating Answer services s) (E := OneProof Answer)
      (fun ptx hptx rows s₁ h₁ => ?_) (Updating.refl h)) (fun _ _ h' => h'.oneProof) fun _ h' => h'
    obtain ⟨hmem, hhash⟩ := List.mem_filter.mp hptx
    obtain ⟨outcome, s', hrun, hwrite⟩ :=
      Reorg.run_reproveRow services (faults.update ptx.provenTxId) ptx s₁
    rw [wp_bind, wp, hrun]
    rcases hwrite with rfl | ⟨hfault, merklePath, newHeader, n, hpath, hheader, hexec⟩
    · exact h₁
    · have hproof := proof_of_answer hpath hheader
      exact h₁.update hanswers hmem hproof
        (hfits hfind ptx hmem (beq_iff_eq.mp hhash) hfault _ hproof) hexec

/-! ## Every sequence of insertions and new proofs -/

/-- What writes to `proven_txs`. -/
inductive Action where
  | tick (now : Nat)
  | getProofs (services : Services) (params : ProofParams) (reqs : List ProvenTxReq)
  | internalizeAction (sdk : Sdk) (tracker : ChainTracker) (auth : String)
      (args : StorageInternalizeActionArgs)
  | reproveProven (services : Services) (ptx : ProvenTx)
  | reproveHeader (services : Services) (deactivatedHash : String)
  /-- One header of `TaskReorg::run_task`. -/
  | reorg (services : Services) (faults : Reorg.Faults) (hash : String)

def Action.next : Action → Store → Store
  | .tick now, s => s.tick now
  | .getProofs services params reqs, s => leaves s (Monitor.getProofs services params reqs)
  | .internalizeAction sdk tracker auth args, s =>
    leaves s (Storage.internalizeAction sdk tracker auth args)
  | .reproveProven services ptx, s => leaves s (Storage.reproveProven services ptx false)
  | .reproveHeader services hash, s => leaves s (Storage.reproveHeader services hash)
  | .reorg services faults hash, s => leaves s (Reorg.processHeader services faults hash)

/-- The services and the bumps of a BEEF give answers only. -/
def Action.Enabled (Answer : Proof → Prop) : Action → Prop
  | .tick _ => True
  | .getProofs services _ _ => Answers Answer services
  | .internalizeAction sdk _ _ _ => Bumps Answer sdk
  | .reproveProven services _ => Answers Answer services
  | .reproveHeader services _ => Answers Answer services
  | .reorg services _ _ => Answers Answer services

/-- A new proof fits the rows that it is written to. -/
def Fitting : Store → Action → Prop
  | s, .reproveProven services ptx => ∀ p ∈ s.provenTxs, p.provenTxId = ptx.provenTxId →
      ∀ answer, services.proof ptx.txid = some answer → ptx.proof = answer ∨ p.proof.Fits answer
  | s, .reproveHeader services hash => HeaderFits services hash s
  | s, .reorg services faults hash => faults.find = none → ∀ p ∈ s.provenTxs, p.blockHash = hash →
      faults.update p.provenTxId = none → ∀ answer, services.proof p.txid = some answer →
        p.proof.Fits answer
  | _, _ => True

def proofs (Answer : Proof → Prop) (s₀ : Store) : System Store Action where
  init := s₀
  Enabled _ a := a.Enabled Answer
  next := Action.next

theorem OneProof.next {a : Action} (h : OneProof Answer s) (henabled : a.Enabled Answer)
    (hok : Fitting s a) : OneProof Answer (a.next s) := by
  cases a with
  | tick now => exact h
  | getProofs services params reqs =>
    exact (emits_getProofs henabled params reqs).run OneProof.insert h
  | internalizeAction sdk tracker auth args =>
    exact (emits_internalizeAction henabled tracker auth args).run OneProof.insert h
  | reproveProven services ptx => exact wp_store.mp (wp_reproveProven henabled h hok)
  | reproveHeader services hash => exact wp_store.mp (wp_reproveHeader_oneProof henabled h hok)
  | reorg services faults hash => exact wp_store.mp (wp_processHeader_oneProof henabled h hok)

/-- In every run in which each new proof fits the rows that it is written to, every stored proof is
one answer, and `reprove_header` reports the rows that it leaves. -/
theorem stored_proof_is_one (Answer : Proof → Prop) (s₀ s : Store) (hstart : OneProof Answer s₀)
    (h : (proofs Answer s₀).Reaches Fitting s) :
    OneProof Answer s ∧ ∀ services hash result s',
      Fitting s (.reproveHeader services hash) →
        (Storage.reproveHeader services hash).run Stmt.exec s = (.ok result, s') →
          ∀ u ∈ result.updated, u ∈ s'.provenTxs := by
  constructor
  · exact h.inv hstart fun _ _ hs henabled hok => hs.next henabled hok
  · intro services hash result s' hfits hrun
    exact reproveHeader_reports hfits hrun

/-! ## A block that is replaced -/

/-- The proof of the sample transaction before and after a reorganization. -/
def oldProof : Proof := ⟨100, "old-hash", [1], "old-root"⟩

def newProof : Proof := ⟨101, "new-hash", [2], "new-root"⟩

def answering (proof : Proof) : Services where
  postBeef _ _ := []
  getStatusForTxids _ := { status := "error" }
  isUtxo _ _ _ := .ok false
  getMerklePath _ :=
    { merklePath := some proof.merklePath
      header := some
        { height := proof.height, hash := proof.blockHash, merkleRoot := proof.merkleRoot } }

def sampleReq : ProvenTxReq where
  provenTxId := none
  status := .unmined
  attempts := 0
  notified := false
  txid := "aa"
  batch := none
  history := none
  notify := none
  rawTx := [0]
  inputBeef := none

/-- The proof of the transaction is collected, and later its block is deactivated. -/
def reorganized (now : Proof) : List Action :=
  [.getProofs (answering oldProof) ⟨3, true, none⟩ [sampleReq],
    .reorg (answering now) {} "old-hash"]

theorem answers_answering {proof : Proof} (h : Answer proof) : Answers Answer (answering proof) := by
  rintro txid p ⟨⟩
  exact h

theorem proof_collected :
    ((Action.getProofs (answering oldProof) ⟨3, true, none⟩ [sampleReq]).next
      Store.empty).provenTxs.rows.map ProvenTx.proof = [oldProof] := by
  decide +kernel

/-- The services still give the stored proof. -/
theorem stored_proof_is_one_sample :
    ∃ s, (proofs (· = oldProof) Store.empty).Reaches Fitting s ∧ s.provenTxs.rows ≠ [] ∧
      OneProof (· = oldProof) s := by
  have hrun : (proofs (· = oldProof) Store.empty).Reaches Fitting
      ((proofs (· = oldProof) Store.empty).after Store.empty (reorganized oldProof)) := by
    refine System.Reaches.after .init ⟨⟨answers_answering rfl, trivial⟩, ⟨answers_answering rfl, ?_⟩,
      trivial⟩
    rintro - p hp - - answer ⟨⟩
    have hproof : p.proof ∈ [oldProof] :=
      proof_collected ▸ List.mem_map_of_mem (Table.mem_def.mp hp)
    rw [List.mem_singleton.mp hproof]
    exact .inl ⟨rfl, rfl⟩
  exact ⟨_, hrun, by decide +kernel, (stored_proof_is_one _ Store.empty _ nofun hrun).1⟩

/-- The row has the block of the new proof, with the path and the root of the old one. -/
theorem stored_proof_mixed :
    ∃ s, (proofs (fun p => p = oldProof ∨ p = newProof) Store.empty).Reaches (fun _ _ => True) s ∧
      ¬ OneProof (fun p => p = oldProof ∨ p = newProof) s := by
  refine ⟨(proofs _ Store.empty).after Store.empty (reorganized newProof),
    System.Reaches.after .init ⟨⟨answers_answering (.inl rfl), trivial⟩,
      ⟨answers_answering (.inr rfl), trivial⟩, trivial⟩, fun h => ?_⟩
  have hrows : ((proofs (fun p => p = oldProof ∨ p = newProof) Store.empty).after Store.empty
      (reorganized newProof)).provenTxs.rows.map ProvenTx.proof =
        [⟨101, "new-hash", [1], "old-root"⟩] := by
    decide +kernel
  obtain ⟨p, hp, hproof⟩ := List.mem_map.mp (hrows ▸ List.mem_singleton_self _)
  have hanswer := h p hp
  rw [hproof] at hanswer
  revert hanswer
  decide

end WalletToolbox.Reprove
