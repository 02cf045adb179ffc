import WalletToolbox.Laws.System
import WalletToolbox.Sample

/-! # Claims on outputs

A spendable output carries no claim, a claim is held by a transaction of the same user, and an
output belongs to the user of its transaction.
Every operation of the wallet keeps this. -/

namespace WalletToolbox

open WalletToolbox.Lib WalletToolbox.Storage WalletToolbox.Signer WalletToolbox.Monitor

variable {sdk : Sdk} {s s' : Store} {d d' : Tables}

/-- Claims are held by transactions of the owner, on rows that are not spendable. -/
structure ClaimsSound (d : Tables) : Prop where
  free : ∀ o ∈ d.outputs, o.spendable = true → o.spentBy = none
  claimant : ∀ o ∈ d.outputs, ∀ t ∈ d.transactions, o.spentBy = some t.transactionId →
    t.userId = o.userId

/-- An output belongs to the user of its transaction. -/
def OwnedOutputs (d : Tables) : Prop :=
  ∀ o ∈ d.outputs, ∀ t ∈ d.transactions, o.transactionId = t.transactionId → o.userId = t.userId

/-! ## What is kept of an output -/

/-- The row loses its claim, or it keeps it and does not become spendable. -/
structure UseKept (o o' : Output) : Prop where
  userId : o'.userId = o.userId
  transactionId : o'.transactionId = o.transactionId
  use : o'.spentBy = none ∨
    (o'.spentBy = o.spentBy ∧ (o'.spendable = true → o.spendable = true))

theorem UseKept.refl (o : Output) : UseKept o o := ⟨rfl, rfl, .inr ⟨rfl, fun h => h⟩⟩

theorem UseKept.trans {o₁ o₂ o₃ : Output} (h : UseKept o₁ o₂) (h' : UseKept o₂ o₃) :
    UseKept o₁ o₃ := by
  refine ⟨h'.userId.trans h.userId, h'.transactionId.trans h.transactionId, ?_⟩
  rcases h'.use with hnone | ⟨hclaim, huse⟩
  · exact .inl hnone
  · rcases h.use with hnone | ⟨hclaim', huse'⟩
    · exact .inl (hclaim.trans hnone)
    · exact .inr ⟨hclaim.trans hclaim', fun hs => huse' (huse hs)⟩

theorem useKept_outputs (h : d'.outputs = d.outputs) :
    ∀ o' ∈ d'.outputs, ∃ o ∈ d.outputs, UseKept o o' :=
  fun o' ho' => ⟨o', h ▸ ho', UseKept.refl o'⟩

theorem useKept_release {c : Output → Bool} (h : d'.outputs = (d.releaseWhere c).outputs) :
    ∀ o' ∈ d'.outputs, ∃ o ∈ d.outputs, UseKept o o' := by
  intro o' ho'
  rw [h] at ho'
  obtain ⟨o, ho, rfl⟩ := mem_releaseWhere.mp ho'
  refine ⟨o, ho, ?_⟩
  split
  · exact ⟨rfl, rfl, .inl rfl⟩
  · exact UseKept.refl o

theorem useKept_signer {services : Services} {txid : String} {move : SignerMove} :
    ∀ o' ∈ (signerEffect services s txid move).outputs, ∃ o ∈ s.outputs, UseKept o o' := by
  cases move with
  | nothing => exact useKept_outputs rfl
  | accept orphan => exact useKept_outputs setFirstStatus_outputs
  | retry => exact useKept_outputs setFirstStatus_outputs
  | fail doubleSpend =>
    simp only [signerEffect]
    split
    · exact useKept_outputs rfl
    · intro o' ho'
      obtain ⟨o₁, h₁, hkept⟩ := useKept_release rfl o' ho'
      obtain ⟨o, ho, rfl⟩ := mem_retire.mp h₁
      refine ⟨o, setFirstStatus_outputs ▸ ho, UseKept.trans ?_ hkept⟩
      split
      · exact ⟨rfl, rfl, .inr ⟨rfl, (by rintro ⟨⟩)⟩⟩
      · exact UseKept.refl o

theorem useKept_post {services : Services} {req : ProvenTxReq} {p : Posting} :
    ∀ o' ∈ (postingEffect services d req p).outputs, ∃ o ∈ d.outputs, UseKept o o' := by
  cases p with
  | skipped => exact useKept_outputs rfl
  | missingSource => exact useKept_outputs rfl
  | unusable => exact useKept_outputs rfl
  | posted v =>
    simp only [postingEffect, verdictEffect]
    split
    · intro o' ho'
      obtain ⟨o₁, h₁, hkept⟩ := useKept_release rfl o' ho'
      rw [setFirstStatus_outputs] at h₁
      exact ⟨o₁, h₁, hkept⟩
    · exact useKept_outputs (setFirstStatus_outputs (d := (Stmt.apply d _).2))
    · exact useKept_outputs rfl

theorem proofEffect_outputs {req : ProvenTxReq} {move : ProofMove} :
    (proofEffect d req move).outputs = d.outputs := by
  cases move with
  | save provenTx =>
    simp only [proofEffect, Tables.linkProof]
    split <;> rfl
  | _ => rfl

/-! ## Every operation keeps it -/

theorem OwnedOutputs.step (h : OwnedOutputs s.toTables)
    (hrows : KeepsRows s.toTables s'.toTables) : OwnedOutputs s'.toTables := by
  intro o' ho' t' ht' hid
  rcases hrows.outputs o' ho' with ⟨o, ho, hsame⟩ | ⟨t, ht, htid, huser⟩
  · rcases hrows.transactions t' ht' with ⟨t, ht, htsame⟩ | hfresh
    · rw [hsame.userId, htsame.userId]
      exact h o ho t ht (hsame.transactionId.symm.trans (hid.trans htsame.transactionId))
    · obtain ⟨t, ht, hkey⟩ := s.foreign.outputTransaction o ho
      exact absurd (hkey.trans (hsame.transactionId.symm.trans hid)) (hfresh t ht)
  · obtain rfl : t = t' := Table.eq_of_key_eq ht ht' (htid.trans hid)
    exact huser.symm

/-- Where the use of an output comes from: an old row, a claim by a new transaction of the owner on
an old row, or no claim at all. -/
def OutputUse (s s' : Store) (o' : Output) : Prop :=
  (∃ o ∈ s.outputs, UseKept o o') ∨
    (o'.spendable = false ∧ (∃ t ∈ s.transactions, t.transactionId = o'.transactionId) ∧
      ∃ t ∈ s'.transactions, o'.spentBy = some t.transactionId ∧ t.userId = o'.userId ∧
        ∀ t₀ ∈ s.transactions, t₀.transactionId ≠ t.transactionId) ∨
    o'.spentBy = none

theorem ClaimsSound.step (h : ClaimsSound s.toTables) (hrows : KeepsRows s.toTables s'.toTables)
    (hout : ∀ o' ∈ s'.outputs, OutputUse s s' o') : ClaimsSound s'.toTables := by
  refine ⟨fun o' ho' hs => ?_, fun o' ho' t' ht' hclaim => ?_⟩
  · rcases hout o' ho' with ⟨o, ho, hkept⟩ | ⟨hnot, -⟩ | hnone
    · rcases hkept.use with hnone | ⟨hsame, huse⟩
      · exact hnone
      · exact hsame.trans (h.free o ho (huse hs))
    · rw [hnot] at hs
      cases hs
    · exact hnone
  · rcases hout o' ho' with ⟨o, ho, hkept⟩ | ⟨-, -, t, ht, hclaimed, huser, -⟩ | hnone
    · rcases hkept.use with hnone | ⟨hsame, -⟩
      · rw [hnone] at hclaim
        cases hclaim
      · have hclaim₀ : o.spentBy = some t'.transactionId := hsame.symm.trans hclaim
        rcases hrows.transactions t' ht' with ⟨t, ht, htsame⟩ | hfresh
        · rw [htsame.userId, hkept.userId]
          exact h.claimant o ho t ht (htsame.transactionId ▸ hclaim₀)
        · obtain ⟨t, ht, hkey⟩ := s.foreign.outputSpentBy o ho _ hclaim₀
          exact absurd hkey (hfresh t ht)
    · obtain rfl : t = t' :=
        Table.eq_of_key_eq ht ht' (Option.some.inj (hclaimed.symm.trans hclaim))
      exact huser
    · rw [hnone] at hclaim
      cases hclaim

/-- No transaction claims its own output. -/
def NoOwnClaims (d : Tables) : Prop :=
  ∀ o ∈ d.outputs, o.spentBy ≠ some o.transactionId

theorem NoOwnClaims.step (h : NoOwnClaims s.toTables)
    (hout : ∀ o' ∈ s'.outputs, OutputUse s s' o') : NoOwnClaims s'.toTables := by
  intro o' ho' hclaim
  rcases hout o' ho' with ⟨o, ho, hkept⟩ | ⟨-, ⟨t₀, h₀, hid⟩, t, -, hclaimed, -, hfresh⟩ | hnone
  · rcases hkept.use with hnone | ⟨hsame, -⟩
    · rw [hnone] at hclaim
      cases hclaim
    · exact h o ho (hsame.symm.trans (hclaim.trans (congrArg some hkept.transactionId)))
  · exact hfresh t₀ h₀ (hid.trans (Option.some.inj (hclaim.symm.trans hclaimed)))
  · rw [hnone] at hclaim
    cases hclaim

/-- Every operation but a review of given up requests uses outputs in these ways. -/
theorem Effect.outputUse {op : Op} (h : Effect sdk s op s') (hop : op.kind ≠ .unfail) :
    ∀ o' ∈ s'.outputs, OutputUse s s' o' := by
  intro o' ho'
  cases h with
  | same h => exact .inl (useKept_outputs h.outputs o' ho')
  | create _ reports =>
    have h := reports.created
    obtain ⟨t, ht, hnew⟩ := h.added
    rcases h.outputs o' ho' with hold | ⟨o, ho, hfree, now, rfl⟩ | hn
    · exact .inl ⟨o', hold, UseKept.refl o'⟩
    · refine .inr (.inl ⟨rfl, s.foreign.outputTransaction o ho, t, ht,
        congrArg some hnew.transactionId.symm, hnew.userId.trans hfree.userId.symm, ?_⟩)
      rw [hnew.transactionId]
      exact h.fresh
    · exact .inr (.inr hn.spentBy)
  | send _ core batch => exact .inl (useKept_outputs (batch.outputs.trans core.outputs) o' ho')
  | commit _ core found _ batch =>
    rw [batch.outputs] at ho'
    obtain ⟨o, ho, rfl⟩ := mem_commitSigned_outputs.mp ho'
    refine .inl ⟨o, core.outputs ▸ ho, ?_⟩
    split
    · exact ⟨rfl, rfl, .inl rfl⟩
    · exact UseKept.refl o
  | abort found h =>
    rw [h, abortEffect_outputs] at ho'
    obtain ⟨o₁, h₁, rfl⟩ := mem_retireOwn.mp ho'
    obtain ⟨o, ho, hkept⟩ := useKept_release rfl o₁ h₁
    refine .inl ⟨o, ho, hkept.trans ?_⟩
    split
    · exact ⟨rfl, rfl, .inl rfl⟩
    · exact UseKept.refl o₁
  | internalize core prepared h =>
    rcases h.outputs o' ho' with ⟨o, ho, hsame⟩ | htaken
    · exact .inl ⟨o, ho, hsame.userId, hsame.transactionId,
        .inr ⟨hsame.spentBy, fun h => hsame.spendable ▸ h⟩⟩
    · exact .inr (.inr htaken.spentBy)
  | signer h =>
    rw [h] at ho'
    exact .inl (useKept_signer o' ho')
  | post h =>
    rw [h] at ho'
    exact .inl (useKept_post o' ho')
  | prove h =>
    rw [h] at ho'
    exact .inl (useKept_outputs proofEffect_outputs o' ho')
  | unfail h => exact absurd rfl hop

/-- A review keeps the claims sound: it claims rows for the transaction of their user. -/
theorem claimsSound_unfail {services : Services} {req : ProvenTxReq} (h : ClaimsSound d) :
    ClaimsSound (unfailEffect sdk services d req) := by
  refine unfailEffect_inv (fun d status h => ⟨h.free, h.claimant⟩) (fun d id _ h => ?_)
    (fun d id _ o ho hthere h => ?_) (fun d userId id _ h => ?_) h
  · refine ⟨h.free, fun o ho t' ht' hclaim => ?_⟩
    obtain ⟨t, ht, rfl⟩ := mem_updateTransaction.mp ht'
    have hkeep := h.claimant o ho t ht
    split at hclaim <;> split <;> exact hkeep hclaim
  · refine ⟨fun o' ho' hs => ?_, fun o' ho' t' ht' hclaim => ?_⟩
    · obtain ⟨o₀, h₀, rfl⟩ := mem_updateOutput.mp ho'
      split at hs
      · cases hs
      · rename_i hne
        rw [if_neg hne]
        exact h.free o₀ h₀ hs
    · obtain ⟨o₀, h₀, rfl⟩ := mem_updateOutput.mp ho'
      split at hclaim
      · rename_i hid
        rw [if_pos hid]
        obtain rfl : o₀ = o := Table.eq_of_key_eq h₀ ho hid
        obtain ⟨hkey, hpos⟩ := claimedBy_spentBy hclaim
        obtain ⟨t, ht, htid, huser⟩ := hthere.resolve_left hpos
        obtain rfl : t = t' := Table.eq_of_key_eq ht ht' (htid.trans hkey.symm)
        exact huser
      · rename_i hne
        rw [if_neg hne]
        exact h.claimant o₀ h₀ t' ht' hclaim
  · have hreviewed : ∀ o, UseKept o (reviewed services d o o) := by
      intro o
      unfold reviewed
      split
      · exact UseKept.refl o
      · rename_i isUtxo _
        cases isUtxo with
        | true => exact ⟨rfl, rfl, .inl rfl⟩
        | false => exact ⟨rfl, rfl, .inr ⟨rfl, (by rintro ⟨⟩)⟩⟩
    have hkept : ∀ o' ∈ (reviewOwn services userId id d).outputs, ∃ o ∈ d.outputs, UseKept o o' := by
      intro o' ho'
      obtain ⟨o, ho, rfl⟩ := mem_reviewOwn.mp ho'
      refine ⟨o, ho, ?_⟩
      split
      · exact hreviewed o
      · exact UseKept.refl o
    refine ⟨fun o' ho' hs => ?_, fun o' ho' t ht hclaim => ?_⟩
    · obtain ⟨o, ho, hk⟩ := hkept o' ho'
      rcases hk.use with hnone | ⟨hsame, huse⟩
      · exact hnone
      · exact hsame.trans (h.free o ho (huse hs))
    · obtain ⟨o, ho, hk⟩ := hkept o' ho'
      rcases hk.use with hnone | ⟨hsame, huse⟩
      · rw [hnone] at hclaim
        cases hclaim
      · rw [hk.userId]
        exact h.claimant o ho t ht (hsame.symm.trans hclaim)

theorem Effect.claimsSound {op : Op} (h : Effect sdk s op s') (hs : ClaimsSound s.toTables) :
    ClaimsSound s'.toTables := by
  by_cases hop : op.kind = .unfail
  · cases h with
    | unfail h =>
      rw [h]
      exact claimsSound_unfail hs
    | same h =>
      exact ⟨by rw [h.outputs]; exact hs.free, by rw [h.outputs, h.transactions]; exact hs.claimant⟩
    | _ => cases hop
  · exact hs.step h.keepsRows (h.outputUse hop)

/-- In every state of every run the claims are sound and outputs belong to the users of their
transactions. -/
theorem reaches_claimsSound {ok : Store → Op → Prop} (h : (wallet sdk).Reaches ok s) :
    ClaimsSound s.toTables ∧ OwnedOutputs s.toTables := by
  refine h.inv (I := fun s => ClaimsSound s.toTables ∧ OwnedOutputs s.toTables)
    ⟨⟨fun o ho => absurd ho (Table.not_mem_empty o), fun o ho => absurd ho (Table.not_mem_empty o)⟩,
      fun o ho => absurd ho (Table.not_mem_empty o)⟩ fun s op hs _ _ => ?_
  have heffect : Effect sdk s op (op.run sdk s) := op.run_effect
  exact ⟨heffect.claimsSound hs.1, hs.2.step heffect.keepsRows⟩

/-- In every state of every run, whatever the operations and the answers to them: an output belongs
to the user of its transaction, a claim on it is held by a transaction of the same user, and there is
none while the output is spendable. -/
theorem reachable_coins {ok : Store → Op → Prop} (h : (wallet sdk).Reaches ok s) :
    ∀ o ∈ s.outputs,
      (∃ t ∈ s.transactions, t.transactionId = o.transactionId ∧ t.userId = o.userId) ∧
      (∀ id, o.spentBy = some id → o.spendable = false ∧
        ∃ t ∈ s.transactions, t.transactionId = id ∧ t.userId = o.userId) := by
  obtain ⟨hsound, howned⟩ := reaches_claimsSound h
  intro o ho
  refine ⟨?_, fun id hid => ⟨?_, ?_⟩⟩
  · obtain ⟨t, ht, hkey⟩ := s.foreign.outputTransaction o ho
    exact ⟨t, ht, hkey, (howned o ho t ht (Eq.symm hkey)).symm⟩
  · cases hspendable : o.spendable with
    | false => rfl
    | true => rw [hsound.free o ho hspendable] at hid; cases hid
  · obtain ⟨t, ht, hkey⟩ := s.foreign.outputSpentBy o ho id hid
    refine ⟨t, ht, hkey, hsound.claimant o ho t ht ?_⟩
    rw [hid]
    exact congrArg some (Eq.symm hkey)

/-- A payer is funded and plans a payment, which claims the funding. -/
theorem reachable_coins_planned :
    ∃ s : Store, (∃ o ∈ s.outputs, o.spentBy.isSome = true) ∧
      ∀ o ∈ s.outputs, ∀ id, o.spentBy = some id →
        ∃ t ∈ s.transactions, t.transactionId = id ∧ t.userId = o.userId := by
  refine ⟨Sample.after [Sample.fund, Sample.pay], by decide +kernel, fun o ho id hid => ?_⟩
  have hrun : (wallet Sample.sdk).Reaches (fun _ _ => True) (Sample.after [Sample.fund, Sample.pay]) :=
    System.Reaches.init.after ⟨⟨trivial, trivial⟩, ⟨trivial, trivial⟩, trivial⟩
  exact ((reachable_coins hrun o ho).2 id hid).2

end WalletToolbox
