import WalletToolbox.Laws.Claims
import WalletToolbox.Laws.Users

/-! # Which actions can be aborted

processAction starts the history of a request as an array, and abortAction wants an object there.
So an action that has been processed cannot be aborted, whatever its status, and one that has not
been processed always can. -/

namespace WalletToolbox

open WalletToolbox.Lib WalletToolbox.Storage

/-- The calls that plan, sign and fund actions. -/
def OpKind.acts : OpKind → Bool
  | .tick | .create | .process | .internalize => true
  | _ => false

/-- A processed action has a request with an empty array for its history, and another one has neither
a txid nor a raw transaction. -/
def Logged (d : Tables) : Prop :=
  ∀ t ∈ d.transactions, t.isOutgoing = true →
    (t.txid = none ∧ t.rawTx = none) ∨
      ∃ q ∈ d.provenTxReqs, t.txid = some q.txid ∧ q.history = some (.arr [])

/-- What an abort is to leave of an action: it has failed, so has its request, and the outputs that
became spendable are those it had claimed. -/
structure Aborted (s s' : Store) (t : Transaction) : Prop where
  failed : ∃ t' ∈ s'.transactions, t'.transactionId = t.transactionId ∧ t'.status = .failed
  request : ∀ q ∈ s'.provenTxReqs, t.txid = some q.txid → q.status = .invalid
  released : ∀ o ∈ s.outputs, ∃ o' ∈ s'.outputs, o'.outputId = o.outputId ∧
    (o.spentBy = some t.transactionId → o'.spendable = true ∧ o'.spentBy = none) ∧
    (o.spentBy ≠ some t.transactionId → o'.spendable = true → o.spendable = true)

section Invariant

variable {sdk : Sdk} {s s' : Store} {d d' : Tables} {op : Op}

theorem Logged.of_same (h : Logged s.toTables) (hsame : SameCore s s') : Logged s'.toTables := by
  unfold Logged
  rw [hsame.transactions, hsame.provenTxReqs]
  exact h

/-- A batch changes statuses only. -/
theorem Logged.scheduled (h : Logged d) {userId : Nat} {txids : List String}
    (hbatch : Scheduled d userId txids d') : Logged d' := by
  intro t' ht' hout
  obtain ⟨t, ht, hsent⟩ := hbatch.transactions t' ht'
  have hsame : t'.isOutgoing = t.isOutgoing ∧ t'.txid = t.txid ∧ t'.rawTx = t.rawTx := by
    rcases hsent with rfl | ⟨-, -, stamp, rfl⟩
    · exact ⟨rfl, rfl, rfl⟩
    · exact ⟨rfl, rfl, rfl⟩
  rw [hsame.2.1, hsame.2.2]
  refine (h t ht (hsame.1 ▸ hout)).imp_right ?_
  rintro ⟨q, hq, htxid, hhistory⟩
  obtain ⟨q', hq', hscheduled⟩ := hbatch.keptProvenTxReqs q hq
  refine ⟨q', hq', ?_⟩
  rcases hscheduled with rfl | ⟨-, -, batch, stamp, rfl⟩
  · exact ⟨htxid, hhistory⟩
  · exact ⟨htxid, hhistory⟩

/-- A signed action comes with its request. -/
theorem Logged.commitSigned (h : Logged d) {userId : Nat} {transaction : Transaction} {txid : String}
    {rawTx : Bytes} {status : ReqTxStatus} :
    Logged (d.commitSigned userId transaction txid rawTx status) := by
  intro t' ht' hout
  obtain ⟨t, ht, rfl⟩ := mem_commitSigned_transactions.mp ht'
  split_ifs at hout ⊢
  · exact .inr ⟨_, mem_commitSigned_provenTxReqs.mpr (.inr rfl), rfl, rfl⟩
  · refine (h t ht hout).imp_right ?_
    rintro ⟨q, hq, htxid, hhistory⟩
    exact ⟨q, mem_commitSigned_provenTxReqs.mpr (.inl hq), htxid, hhistory⟩

theorem Effect.logged (heffect : Effect sdk s op s') (hop : op.kind.acts = true)
    (h : Logged s.toTables) : Logged s'.toTables := by
  cases heffect with
  | same hsame => exact h.of_same hsame
  | create _ reports =>
    have hcreated := reports.created
    intro t ht hout
    rw [hcreated.provenTxReqs]
    rcases hcreated.transactions t ht with hold | hnew
    · exact h t hold hout
    · exact .inl ⟨hnew.txid, hnew.rawTx⟩
  | send _ core batch => exact (h.of_same core).scheduled batch
  | commit _ core _ _ batch => exact (h.of_same core).commitSigned.scheduled batch
  | @internalize _ _ _ _ _ _ s₁ _ core prepared hinternalized =>
    intro t ht hout
    have hold : ∀ t₀ ∈ s.transactions, t₀.isOutgoing = true →
        (t₀.txid = none ∧ t₀.rawTx = none) ∨
          ∃ q ∈ s'.provenTxReqs, t₀.txid = some q.txid ∧ q.history = some (.arr []) := by
      intro t₀ ht₀ hout₀
      refine (h t₀ ht₀ hout₀).imp_right ?_
      rintro ⟨q, hq, hq'⟩
      exact ⟨q, hinternalized.keptProvenTxReqs q hq, hq'⟩
    rcases hinternalized.transactions t ht with hmem | ⟨e, he, stamp, rfl⟩ | ⟨-, -, _, _, rfl, -⟩
    · exact hold t hmem hout
    · have hrows := verifyOneOrNone_ok (he ▸ prepared.existing)
      have hmem : e ∈ s₁.transactions := (Table.mem_find.mp (by rw [hrows]; simp)).1
      exact hold e (core.transactions ▸ hmem) hout
    · cases hout
  | abort _ _ => cases hop
  | signer _ => cases hop
  | post _ => cases hop
  | prove _ => cases hop
  | unfail _ => cases hop

/-- In every state that these calls reach, processed actions have their requests, and claims are held
by the transactions of the outputs' users, never by the output's own. -/
theorem reaches_logged {ok : Store → Op → Prop} (hok : ∀ s op, ok s op → op.kind.acts = true)
    (h : (wallet sdk).Reaches ok s) :
    Logged s.toTables ∧ NoOwnClaims s.toTables := by
  refine h.inv (I := fun s => Logged s.toTables ∧ NoOwnClaims s.toTables)
    ⟨fun t ht => absurd ht (Table.not_mem_empty t), fun o ho => absurd ho (Table.not_mem_empty o)⟩
    fun s op hs _ hmeets => ?_
  have heffect : Effect sdk s op (op.run sdk s) := op.run_effect
  have hacts := hok s op hmeets
  refine ⟨heffect.logged hacts hs.1, hs.2.step (heffect.outputUse fun hkind => ?_)⟩
  rw [hkind] at hacts
  cases hacts

end Invariant

section Abort

variable {sdk : Sdk} {s s' : Store} {user : User} {t : Transaction} {reference : Bytes}
  {stamp : String}

/-- An action without a txid passes the checks of an abort. -/
theorem abortable_of_bare (hu : user ∈ s.users) (ht : t ∈ s.transactions)
    (huser : t.userId = user.userId) (hout : t.isOutgoing = true)
    (hstatus : unAbortable t.status = false) (href : t.reference = base64Encode reference)
    (htxid : t.txid = none) (hraw : t.rawTx = none) :
    Abortable sdk s user.identityKey reference stamp user t
      ((s.outputs.find fun o => o.userId == user.userId && o.spentBy == some t.transactionId).map
        (·.outputId)) none where
  known := (find_identityKey s user.identityKey).trans (congrArg Except.ok (userOf_eq hu))
  target := abortTarget_eq ht huser href
  outgoing := hout
  status := hstatus
  inputs := by
    unfold abortInputIds
    rw [hraw]
  request := by
    unfold abortedRequest
    rw [htxid]
    rfl

/-- Without a raw transaction, the rows to release are the claimed ones. -/
theorem releasable_claimed {userId id : Nat} {o : Output} (ho : o ∈ s.outputs) :
    releasable ((s.outputs.find fun o => o.userId == userId && o.spentBy == some id).map
      (·.outputId)) id o = (o.userId == userId && o.spentBy == some id) := by
  have hkey : ((s.outputs.find fun o => o.userId == userId && o.spentBy == some id).map
      (·.outputId)).contains o.outputId = (o.userId == userId && o.spentBy == some id) :=
    Table.contains_key_find ho
  unfold releasable
  rw [hkey]
  cases hclaim : o.spentBy == some id <;> simp

/-- What becomes of an output: those that the action claims are released. -/
theorem abortEffect_released (hclaims : ClaimsSound s.toTables) (hown : NoOwnClaims s.toTables)
    (ht : t ∈ s.transactions) (huser : t.userId = user.userId) {req : Option (ProvenTxReq × Json)}
    {o : Output} (ho : o ∈ s.outputs) :
    ∃ o' ∈ (abortEffect s.toTables user.userId t.transactionId
        ((s.outputs.find fun o => o.userId == user.userId && o.spentBy == some t.transactionId).map
          (·.outputId)) req).outputs, o'.outputId = o.outputId ∧
      (o.spentBy = some t.transactionId → o'.spendable = true ∧ o'.spentBy = none) ∧
      (o.spentBy ≠ some t.transactionId → o'.spendable = true → o.spendable = true) := by
  rw [abortEffect_outputs]
  refine ⟨_, mem_retireOwn.mpr ⟨_, mem_releaseWhere.mpr ⟨o, ho, rfl⟩, rfl⟩, ?_, ?_, ?_⟩
  · split_ifs <;> rfl
  · intro hclaim
    have howner : o.userId = user.userId := (hclaims.claimant o ho t ht hclaim).symm.trans huser
    have hother : o.transactionId ≠ t.transactionId := fun heq => hown o ho (heq ▸ hclaim)
    have hreleased : (o.userId == user.userId && o.spentBy == some t.transactionId) = true := by
      simp [howner, hclaim]
    rw [releasable_claimed ho, if_pos hreleased, if_neg (by simp [retirable, release, hother])]
    exact ⟨rfl, rfl⟩
  · intro hclaim hspendable
    have hkept : ¬(o.userId == user.userId && o.spentBy == some t.transactionId) = true := by
      simp [hclaim]
    simp only [releasable_claimed ho, if_neg hkept] at hspendable
    split_ifs at hspendable
    · cases hspendable
    · exact hspendable

theorem aborted_of_bare (hclaims : ClaimsSound s.toTables) (hown : NoOwnClaims s.toTables)
    (ht : t ∈ s.transactions) (huser : t.userId = user.userId) (htxid : t.txid = none)
    (hs' : s'.toTables = abortEffect s.toTables user.userId t.transactionId
      ((s.outputs.find fun o => o.userId == user.userId && o.spentBy == some t.transactionId).map
        (·.outputId)) none) : Aborted s s' t where
  failed := by
    refine ⟨{ t with status := .failed, updatedAt := toSeconds s.now }, ?_, rfl, rfl⟩
    rw [hs']
    exact abortEffect_transactions.mpr ⟨t, ht, (if_pos rfl).symm⟩
  request q _ hq := by
    rw [htxid] at hq
    cases hq
  released o ho := by
    rw [hs']
    exact abortEffect_released hclaims hown ht huser ho

end Abort

/-- An action can be aborted exactly as long as it has not been processed. -/
theorem abort_succeeds_iff (sdk : Sdk) (s : Store) (user : User) (t : Transaction)
    (reference : Bytes) (stamp : String)
    (h : (wallet sdk).Reaches (fun _ op => op.kind.acts = true) s) (hu : user ∈ s.users)
    (ht : t ∈ s.transactions) (huser : t.userId = user.userId) (hout : t.isOutgoing = true)
    (hstatus : unAbortable t.status = false) (href : t.reference = base64Encode reference) :
    (∃ s', (abortAction sdk user.identityKey reference stamp).run Stmt.exec s = (.ok (), s') ∧
      Aborted s s' t) ↔ ∀ q ∈ s.provenTxReqs, t.txid ≠ some q.txid := by
  obtain ⟨hlogged, hown⟩ := reaches_logged (fun _ _ hacts => hacts) h
  constructor
  · rintro ⟨s', hrun, -⟩ q hq htxid
    rcases hlogged t ht hout with ⟨hnone, -⟩ | ⟨q', hq', htxid', hhistory⟩
    · rw [hnone] at htxid
      cases htxid
    · exact abortAction_refused hu ht huser href hq' htxid' hhistory hrun
  · intro hfresh
    rcases hlogged t ht hout with ⟨htxid, hraw⟩ | ⟨q, hq, htxid, -⟩
    · obtain ⟨s', hrun, hs'⟩ :=
        run_abortAction hu (abortable_of_bare hu ht huser hout hstatus href htxid hraw)
      exact ⟨s', hrun, aborted_of_bare (reaches_claimsSound h).1 hown ht huser htxid hs'⟩
    · exact absurd htxid (hfresh q hq)

theorem allows_acts {ops : List Op} (hops : ops.all (·.kind.acts) = true) (s : Store) :
    (wallet Sample.sdk).Allows (fun _ op => op.kind.acts = true) s ops := by
  induction ops generalizing s with
  | nil => trivial
  | cons op rest ih =>
    rw [List.all_cons, Bool.and_eq_true] at hops
    refine ⟨⟨?_, hops.1⟩, ih hops.2 _⟩
    cases op with
    | attemptToPostReq _ _ _ | getProof _ _ _ | unfailReq _ _ => cases hops.1
    | _ => trivial

theorem sample_reaches {ops : List Op} (hops : ops.all (·.kind.acts) = true) :
    (wallet Sample.sdk).Reaches (fun _ op => op.kind.acts = true) (Sample.after ops) :=
  .after .init (allows_acts hops _)

theorem planned_facts :
    ∃ u ∈ (Sample.after [Sample.fund, Sample.pay]).users, u.identityKey = Sample.alice ∧
      ∃ t ∈ (Sample.after [Sample.fund, Sample.pay]).transactions, t.userId = u.userId ∧
        t.isOutgoing = true ∧ unAbortable t.status = false ∧
        t.reference = base64Encode Sample.reference ∧
        ∀ q ∈ (Sample.after [Sample.fund, Sample.pay]).provenTxReqs, t.txid ≠ some q.txid := by
  decide +kernel

/-- The planned payment is given up. -/
theorem abort_succeeds_planned :
    ∃ u ∈ (Sample.after [Sample.fund, Sample.pay]).users,
      ∃ t ∈ (Sample.after [Sample.fund, Sample.pay]).transactions, ∃ s',
        (abortAction Sample.sdk u.identityKey Sample.reference "2024-01-01T00:00:00.000Z").run Stmt.exec
          (Sample.after [Sample.fund, Sample.pay]) = (.ok (), s') ∧
        Aborted (Sample.after [Sample.fund, Sample.pay]) s' t := by
  obtain ⟨u, hu, -, t, ht, huser, hout, hstatus, href, hfresh⟩ := planned_facts
  exact ⟨u, hu, t, ht, (abort_succeeds_iff Sample.sdk _ u t Sample.reference _
    (sample_reaches (by decide)) hu ht huser hout hstatus href).mpr hfresh⟩

/-- The signed payment that is not sent yet cannot be given up. -/
theorem abort_refuses_nosend :
    (wallet Sample.sdk).Reaches (fun _ op => op.kind.acts = true)
        (Sample.after [Sample.fund, Sample.pay, Sample.sign true]) ∧
      (∃ u ∈ (Sample.after [Sample.fund, Sample.pay, Sample.sign true]).users,
        u.identityKey = Sample.alice ∧
        ∃ t ∈ (Sample.after [Sample.fund, Sample.pay, Sample.sign true]).transactions,
          t.userId = u.userId ∧ t.isOutgoing = true ∧ t.status = .nosend ∧
          t.reference = base64Encode Sample.reference) ∧
      ((abortAction Sample.sdk Sample.alice Sample.reference "2024-01-01T00:00:00.000Z").run Stmt.exec
        (Sample.after [Sample.fund, Sample.pay, Sample.sign true])).1.isOk = false :=
  ⟨sample_reaches (by decide), by decide +kernel, by decide +kernel⟩

end WalletToolbox
