import WalletToolbox.Lib.Guarded
import WalletToolbox.Sample
import WalletToolbox.Wallet.BeefHelpers

/-! # What a returned BEEF gains from the wallet's own

Each txid-only entry gains the one transaction that the wallet's BEEF holds for it, so the txids of
the BEEF stay what they were.
No ancestor comes along: an unproven transaction is followed by its inputs only where these were
there before. -/

namespace WalletToolbox

open WalletToolbox.Lib WalletToolbox.Storage

/-- The txids of a BEEF's entries. -/
def Beef.txids (b : Beef) : List String :=
  b.txs.map (·.txid)

/-- The bump has the txid at its lowest level. -/
def MerklePath.Proves (bump : MerklePath) (txid : String) : Prop :=
  ∃ level ∈ bump.path.head?, ∃ leaf ∈ level, leaf.hash = some txid

/-- The entry stays: it has its transaction, and its bump if it has one. -/
structure BeefTx.Stays (e e' : BeefTx) : Prop where
  txid : e'.txid = e.txid
  tx : e'.tx = e.tx
  bumpIndex : ∀ i, e.bumpIndex = some i → e'.bumpIndex = some i

/-- The bump that a BEEF has at an index, or one that was combined with others, proves what `bump`
proves. -/
def Beef.Proves (b : Beef) (i : Nat) (bump : MerklePath) : Prop :=
  ∃ merged, b.bumps[i]? = some merged ∧ ∀ txid, bump.Proves txid → merged.Proves txid

/-- The bumps of a BEEF stay where they are. -/
def Beef.KeepsBumps (b b' : Beef) : Prop :=
  ∀ i bump, b.Proves i bump → b'.Proves i bump

/-- The entry of a transaction that is merged with the index of a bump. -/
structure BeefTx.Merged (txid : String) (tx : Tx) (bumpIndex : Option Nat) (e : BeefTx) : Prop where
  txid : e.txid = txid
  tx : e.tx = some tx
  bumpIndex : ∀ i, bumpIndex = some i → e.bumpIndex = some i

/-- `Beef::merge_bump` takes the union of the bumps. -/
structure MergesBump (b : Beef) (bump : MerklePath) (b' : Beef) (i : Nat) : Prop where
  back : ∀ e' ∈ b'.txs, ∃ e ∈ b.txs, e.Stays e'
  forth : ∀ e ∈ b.txs, ∃ e' ∈ b'.txs, e.Stays e'
  bumps : b.KeepsBumps b'
  merged : b'.Proves i bump

/-- `Beef::merge_raw_tx` takes the union with one entry, which takes the place of one that has its
txid. -/
structure MergesTx (b : Beef) (txid : String) (tx : Tx) (bumpIndex : Option Nat) (b' : Beef) :
    Prop where
  back : ∀ e' ∈ b'.txs, (∃ e ∈ b.txs, e.Stays e') ∨ e'.Merged txid tx bumpIndex
  forth : ∀ e ∈ b.txs, e.txid ≠ txid → ∃ e' ∈ b'.txs, e.Stays e'
  merged : ∃ e' ∈ b'.txs, e'.Merged txid tx bumpIndex
  bumps : b.KeepsBumps b'

/-- The merge operations of the SDK. -/
structure TakesUnions (sdk : Sdk) (bumps : BumpSdk) : Prop where
  bump : ∀ b bump b' i, bumps.mergeBump b bump = .ok (b', i) → MergesBump b bump b' i
  tx : ∀ b tx raw txid bumpIndex b', sdk.txBytes tx = .ok raw → sdk.txidOf tx = .ok txid →
    mergeRawTx sdk bumps b raw bumpIndex = .ok b' → MergesTx b txid tx bumpIndex b'

/-- The entries with a transaction carry its id. -/
def Beef.Named (sdk : Sdk) (b : Beef) : Prop :=
  ∀ e ∈ b.txs, ∀ tx, e.tx = some tx → sdk.txidOf tx = .ok e.txid

/-- Each transaction has a bump, or its inputs are there as well. -/
def Beef.Closed (b : Beef) : Prop :=
  ∀ e ∈ b.txs, ∀ tx, e.tx = some tx → e.hasProof ∨
    ∀ input ∈ tx.inputs, ∀ source, input.sourceTxid = some source → source ∈ b.txids

/-- An entry has become the wallet's entry for a txid that the BEEF had without a transaction. -/
structure Resolved (walletBeef b b' : Beef) (e' : BeefTx) : Prop where
  bare : ∃ e ∈ b.txs, e.isTxidOnly ∧ e.txid = e'.txid
  full : ∃ p ∈ walletBeef.txs, p.txid = e'.txid ∧ p.tx.isSome ∧ e'.tx = p.tx ∧
    ∀ bi, p.bumpIndex = some bi → ∃ bump i, walletBeef.bumps[bi]? = some bump ∧
      e'.bumpIndex = some i ∧ b'.Proves i bump

/-- What the loop has made of the BEEF so far. -/
structure Progress (walletBeef b b' : Beef) : Prop where
  back : ∀ e' ∈ b'.txs, (∃ e ∈ b.txs, e.Stays e') ∨ Resolved walletBeef b b' e'
  forth : ∀ e ∈ b.txs, (∃ e' ∈ b'.txs, e.Stays e') ∨ ∃ e' ∈ b'.txs, e'.txid = e.txid ∧
    Resolved walletBeef b b' e'

section Loop

variable {sdk : Sdk} {bumps : BumpSdk} {walletBeef b b' b'' beef beef' : Beef} {txid : String}
  {known : Option (List String)} {e e' e'' : BeefTx}

theorem BeefTx.Stays.refl (e : BeefTx) : e.Stays e :=
  ⟨rfl, rfl, fun _ h => h⟩

theorem BeefTx.Stays.trans (h : e.Stays e') (h' : e'.Stays e'') : e.Stays e'' where
  txid := h'.txid.trans h.txid
  tx := h'.tx.trans h.tx
  bumpIndex i hi := h'.bumpIndex i (h.bumpIndex i hi)

theorem Resolved.stays (h : Resolved walletBeef b b' e) (hstays : e.Stays e')
    (hbumps : b'.KeepsBumps b'') : Resolved walletBeef b b'' e' where
  bare := by
    obtain ⟨bare, hmem, honly, htxid⟩ := h.bare
    exact ⟨bare, hmem, honly, htxid.trans hstays.txid.symm⟩
  full := by
    obtain ⟨p, hp, htxid, hfull, htx, hbump⟩ := h.full
    refine ⟨p, hp, htxid.trans hstays.txid.symm, hfull, hstays.tx.trans htx, ?_⟩
    intro bi hbi
    obtain ⟨bump, i, hget, hi, hproves⟩ := hbump bi hbi
    exact ⟨bump, i, hget, hstays.bumpIndex i hi, hbumps i bump hproves⟩

theorem Progress.refl (walletBeef b : Beef) : Progress walletBeef b b where
  back e' he' := .inl ⟨e', he', .refl e'⟩
  forth e he := .inl ⟨e, he, .refl e⟩

/-- A step that keeps every entry, or replaces those of a resolved txid, keeps the progress. -/
theorem Progress.step (h : Progress walletBeef b b')
    (hbumps : b'.KeepsBumps b'')
    (hback : ∀ e'' ∈ b''.txs, (∃ e' ∈ b'.txs, e'.Stays e'') ∨ Resolved walletBeef b b'' e'')
    (hforth : ∀ e' ∈ b'.txs, (∃ e'' ∈ b''.txs, e'.Stays e'') ∨
      ∃ e'' ∈ b''.txs, e''.txid = e'.txid ∧ Resolved walletBeef b b'' e'') :
    Progress walletBeef b b'' where
  back e'' he'' := by
    rcases hback e'' he'' with ⟨e', he', hstays⟩ | hresolved
    · rcases h.back e' he' with ⟨e, he, hstays'⟩ | hresolved
      · exact .inl ⟨e, he, hstays'.trans hstays⟩
      · exact .inr (hresolved.stays hstays hbumps)
    · exact .inr hresolved
  forth e he := by
    rcases h.forth e he with ⟨e', he', hstays⟩ | ⟨e', he', htxid, hresolved⟩
    · rcases hforth e' he' with ⟨e'', he'', hstays'⟩ | ⟨e'', he'', htxid, hresolved⟩
      · exact .inl ⟨e'', he'', hstays.trans hstays'⟩
      · exact .inr ⟨e'', he'', htxid.trans hstays.txid, hresolved⟩
    · rcases hforth e' he' with ⟨e'', he'', hstays'⟩ | ⟨e'', he'', htxid', hresolved'⟩
      · exact .inr ⟨e'', he'', hstays'.txid.trans htxid, hresolved.stays hstays' hbumps⟩
      · exact .inr ⟨e'', he'', htxid'.trans htxid, hresolved'⟩

/-- Merging the bump of the wallet's entry changes no entry. -/
theorem mergeBumpOf_spec (hmerges : TakesUnions sdk bumps) {bumpIndex i : Option Nat}
    (h : mergeBumpOf bumps walletBeef b' txid bumpIndex = .ok (b'', i)) :
    b'.KeepsBumps b'' ∧ (∀ e'' ∈ b''.txs, ∃ e' ∈ b'.txs, e'.Stays e'') ∧
      (∀ e' ∈ b'.txs, ∃ e'' ∈ b''.txs, e'.Stays e'') ∧
      ∀ bi, bumpIndex = some bi → ∃ bump j, walletBeef.bumps[bi]? = some bump ∧
        i = some j ∧ b''.Proves j bump := by
  cases bumpIndex with
  | none =>
    cases h
    exact ⟨fun _ _ hp => hp, fun e he => ⟨e, he, .refl e⟩, fun e he => ⟨e, he, .refl e⟩, nofun⟩
  | some bi =>
    unfold mergeBumpOf at h
    dsimp only at h
    cases hget : walletBeef.bumps[bi]? with
    | none =>
      rw [hget] at h
      cases h
    | some bump =>
      rw [hget] at h
      obtain ⟨⟨b₁, j⟩, hmerge, h⟩ := bind_ok_iff.mp h
      cases h
      cases hbump : bumps.mergeBump b' bump with
      | error e =>
        rw [hbump] at hmerge
        cases hmerge
      | ok r =>
        rw [hbump] at hmerge
        cases hmerge
        have hmerged := hmerges.bump _ _ _ _ hbump
        refine ⟨hmerged.bumps, hmerged.back, hmerged.forth, ?_⟩
        intro bi' hbi
        cases hbi
        exact ⟨bump, j, hget, rfl, hmerged.merged⟩

theorem mapError_ok {ε ε' α : Type} {x : Except ε α} {f : ε → ε'} {a : α}
    (h : x.mapError f = .ok a) : x = .ok a := by
  cases x with
  | error e => cases h
  | ok a' =>
    cases h
    rfl

/-- One pass of the loop resolves one txid. -/
theorem mergeFullTx_progress (hmerges : TakesUnions sdk bumps) (hnamed : walletBeef.Named sdk)
    (hprogress : Progress walletBeef b b') (hbare : ∃ e ∈ b.txs, e.isTxidOnly ∧ e.txid = txid)
    (h : mergeFullTx sdk bumps walletBeef b' txid = .ok b'') : Progress walletBeef b b'' := by
  unfold mergeFullTx at h
  cases hfind : walletBeef.findTxid txid with
  | none =>
    rw [hfind] at h
    cases h
  | some p =>
    rw [hfind] at h
    dsimp only at h
    have hp : p ∈ walletBeef.txs := List.mem_of_find?_eq_some hfind
    have hptxid : p.txid = txid := by simpa using List.find?_some hfind
    cases htx : p.tx with
    | none =>
      rw [htx] at h
      cases h
    | some tx =>
      rw [htx] at h
      dsimp only at h
      obtain ⟨⟨b₁, i⟩, hbump, h⟩ := bind_ok_iff.mp h
      obtain ⟨raw, hraw, h⟩ := bind_ok_iff.mp h
      dsimp only at h
      obtain ⟨hbumps, hback, hforth, hindex⟩ := mergeBumpOf_spec hmerges hbump
      have hprogress := hprogress.step hbumps (fun e he => .inl (hback e he))
        (fun e he => .inl (hforth e he))
      have hmerged := hmerges.tx _ _ _ txid _ _ (mapError_ok hraw)
        ((hnamed p hp tx htx).trans (by rw [hptxid])) (mapError_ok h)
      have hresolved : ∀ e, e.Merged txid tx i → Resolved walletBeef b b'' e := by
        intro e he
        refine ⟨?_, p, hp, hptxid.trans he.txid.symm, ?_, he.tx.trans htx.symm, ?_⟩
        · obtain ⟨bare, hmem, honly, htxid⟩ := hbare
          exact ⟨bare, hmem, honly, htxid.trans he.txid.symm⟩
        · rw [htx, Option.isSome_some]
        · intro bi hbi
          obtain ⟨bump, j, hget, hj, hproves⟩ := hindex bi hbi
          exact ⟨bump, j, hget, he.bumpIndex j hj, hmerged.bumps j bump hproves⟩
      refine hprogress.step hmerged.bumps ?_ ?_
      · intro e he
        exact (hmerged.back e he).imp_right (hresolved e)
      · intro e he
        by_cases hsame : e.txid = txid
        · obtain ⟨e', he', hnew⟩ := hmerged.merged
          exact .inr ⟨e', he', hnew.txid.trans hsame.symm, hresolved e' hnew⟩
        · exact .inl (hmerged.forth e he hsame)

/-- The loop over any of the BEEF's bare txids. -/
theorem foldlM_progress (hmerges : TakesUnions sdk bumps) (hnamed : walletBeef.Named sdk)
    {txids : List String} (hbare : ∀ t ∈ txids, ∃ e ∈ b.txs, e.isTxidOnly ∧ e.txid = t)
    (hprogress : Progress walletBeef b b')
    (h : txids.foldlM (fun beef txid =>
      if isKnown known txid then .ok beef else mergeFullTx sdk bumps walletBeef beef txid) b' =
        .ok b'') : Progress walletBeef b b'' := by
  induction txids generalizing b' with
  | nil =>
    cases h
    exact hprogress
  | cons txid rest ih =>
    rw [List.foldlM_cons] at h
    obtain ⟨b₁, hone, hrest⟩ := bind_ok_iff.mp h
    refine ih (fun t ht => hbare t (List.mem_cons_of_mem _ ht)) ?_ hrest
    split at hone
    · cases hone
      exact hprogress
    · exact mergeFullTx_progress hmerges hnamed hprogress (hbare txid List.mem_cons_self) hone

theorem Progress.txids (h : Progress walletBeef b b') (t : String) : t ∈ b'.txids ↔ t ∈ b.txids := by
  simp only [Beef.txids, List.mem_map]
  constructor
  · rintro ⟨e', he', rfl⟩
    rcases h.back e' he' with ⟨e, he, hstays⟩ | hresolved
    · exact ⟨e, he, hstays.txid.symm⟩
    · obtain ⟨e, he, -, htxid⟩ := hresolved.bare
      exact ⟨e, he, htxid⟩
  · rintro ⟨e, he, rfl⟩
    rcases h.forth e he with ⟨e', he', hstays⟩ | ⟨e', he', htxid, -⟩
    · exact ⟨e', he', hstays.txid⟩
    · exact ⟨e', he', htxid⟩

/-- What is left without a transaction when the call succeeds is known to the receiver. -/
theorem verifyReturnedTxidOnly_progress (hmerges : TakesUnions sdk bumps)
    (hnamed : walletBeef.Named sdk)
    (h : verifyReturnedTxidOnly sdk bumps beef walletBeef false known = .ok beef') :
    Progress walletBeef beef beef' ∧
      ∀ e ∈ beef'.txs, e.isTxidOnly → isKnown known e.txid := by
  unfold verifyReturnedTxidOnly at h
  rw [if_neg Bool.false_ne_true] at h
  obtain ⟨b₁, hloop, hcheck⟩ := bind_ok_iff.mp h
  have hprogress := foldlM_progress hmerges hnamed (fun t ht => by
    obtain ⟨e, he, rfl⟩ := List.mem_map.mp ht
    obtain ⟨hmem, honly⟩ := List.mem_filter.mp he
    exact ⟨e, hmem, honly, rfl⟩) (.refl walletBeef beef) hloop
  split at hcheck
  · cases hcheck
  · rename_i hnone
    cases hcheck
    refine ⟨hprogress, fun e he honly => ?_⟩
    have hrest := List.find?_eq_none.mp hnone e he
    simpa [honly] using hrest

/-- A resolved entry without a bump has its inputs in the wallet's BEEF. -/
theorem Resolved.inputs (h : Resolved walletBeef b b' e') (hclosed : walletBeef.Closed) :
    e'.hasProof ∨ ∀ tx, e'.tx = some tx → ∀ input ∈ tx.inputs, ∀ source,
      input.sourceTxid = some source → source ∈ walletBeef.txids := by
  obtain ⟨p, hp, -, -, htx, hbump⟩ := h.full
  by_cases hproof : p.hasProof = true
  · obtain ⟨bi, hbi⟩ := Option.isSome_iff_exists.mp hproof
    obtain ⟨bump, i, -, hi, -⟩ := hbump bi hbi
    refine .inl ?_
    rw [BeefTx.hasProof, hi, Option.isSome_some]
  · refine .inr fun tx he' => ?_
    exact (hclosed p hp tx (htx.symm.trans he')).resolve_left hproof

end Loop

/-! ## The call -/

/-- The transactions that a BEEF gained have bumps, or their inputs are in the BEEF. -/
def Beef.Verifiable (beef beef' : Beef) : Prop :=
  ∀ e' ∈ beef'.txs, (∀ e ∈ beef.txs, e.txid = e'.txid → e.isTxidOnly) → ∀ tx, e'.tx = some tx →
    e'.hasProof ∨ ∀ input ∈ tx.inputs, ∀ source, input.sourceTxid = some source →
      source ∈ beef'.txids

/-- A BEEF gains the wallet's transactions for its own txids and no other, and no input of them comes
with them. -/
theorem verifyReturnedTxidOnly_resolves (sdk : Sdk) (bumps : BumpSdk) (beef beef' walletBeef : Beef)
    (known : Option (List String)) (hmerges : TakesUnions sdk bumps)
    (hnamed : walletBeef.Named sdk) (hclosed : walletBeef.Closed)
    (h : verifyReturnedTxidOnly sdk bumps beef walletBeef false known = .ok beef') :
    (∀ e ∈ beef'.txs, e.isTxidOnly → isKnown known e.txid) ∧
      (∀ t, t ∈ beef'.txids ↔ t ∈ beef.txids) ∧
      (∀ e ∈ beef.txs, (∃ e' ∈ beef'.txs, e.Stays e') ∨
        ∃ e' ∈ beef'.txs, e'.txid = e.txid ∧ Resolved walletBeef beef beef' e') ∧
      ∀ e' ∈ beef'.txs, (∃ e ∈ beef.txs, e.Stays e') ∨
        Resolved walletBeef beef beef' e' ∧
          (e'.hasProof ∨ ∀ tx, e'.tx = some tx → ∀ input ∈ tx.inputs, ∀ source,
            input.sourceTxid = some source →
              source ∈ walletBeef.txids ∧ (source ∈ beef'.txids ↔ source ∈ beef.txids)) := by
  obtain ⟨hprogress, hknown⟩ := verifyReturnedTxidOnly_progress hmerges hnamed h
  refine ⟨hknown, hprogress.txids, hprogress.forth, fun e' he' => ?_⟩
  refine (hprogress.back e' he').imp_right fun hresolved => ⟨hresolved, ?_⟩
  refine (hresolved.inputs hclosed).imp_right fun hinputs tx htx input hinput source hsource => ?_
  exact ⟨hinputs tx htx input hinput source hsource, hprogress.txids source⟩

namespace Party

/-- Merging a transaction drops the entries of its txid. -/
def replaceTx (b : Beef) (raw : Bytes) (bumpIndex : Option Nat) : Except String Beef := do
  let tx ← Sample.parseTx raw
  let txid ← Sample.sdk.txidOf tx
  let entry : BeefTx :=
    { txid, tx := some tx, bumpIndex, inputTxids := tx.inputs.filterMap (·.sourceTxid) }
  .ok { b with txs := b.txs.filter (·.txid != txid) ++ [entry] }

def sdk : Sdk :=
  { Sample.sdk with mergeRawTx := fun b raw => replaceTx b raw none }

def bumps : BumpSdk where
  parseBump _ := Sample.unknown
  mergeBump b bump := .ok ({ b with bumps := b.bumps ++ [bump] }, b.bumps.length)
  mergeProvenTx b raw i := replaceTx b raw (some i)

theorem parseTx_txBytes {tx : Tx} {raw : Bytes} (h : sdk.txBytes tx = .ok raw) :
    Sample.parseTx raw = .ok tx := by
  simp only [sdk, Sample.sdk] at h
  split_ifs at h with hfunding hpayment
  · cases h
    rw [hfunding]
    rfl
  · cases h
    rw [hpayment]
    rfl
  · cases h

theorem keepsBumps_append (b : Beef) (more : List MerklePath) :
    b.KeepsBumps { b with bumps := b.bumps ++ more } := by
  rintro i bump ⟨merged, hget, hproves⟩
  refine ⟨merged, ?_, hproves⟩
  rw [List.getElem?_append_left (List.getElem?_eq_some_iff.mp hget).1]
  exact hget

theorem replaceTx_merges {b b' : Beef} {tx : Tx} {raw : Bytes} {txid : String}
    {bumpIndex : Option Nat} (hraw : sdk.txBytes tx = .ok raw) (hid : sdk.txidOf tx = .ok txid)
    (h : replaceTx b raw bumpIndex = .ok b') : MergesTx b txid tx bumpIndex b' := by
  unfold replaceTx at h
  rw [parseTx_txBytes hraw] at h
  obtain ⟨_, htx, h⟩ := bind_ok_iff.mp h
  cases htx
  obtain ⟨txid', htxid, h⟩ := bind_ok_iff.mp h
  have hsame : txid = txid' := Except.ok.inj (hid.symm.trans htxid)
  subst hsame
  cases h
  have hnew : ∀ inputTxids : List String,
      BeefTx.Merged txid tx bumpIndex { txid, tx := some tx, bumpIndex, inputTxids } :=
    fun _ => ⟨rfl, rfl, fun _ hi => hi⟩
  refine ⟨fun e he => ?_, fun e he hne => ?_, ?_, fun _ _ hp => hp⟩
  · rcases List.mem_append.mp he with he | he
    · exact .inl ⟨e, (List.mem_filter.mp he).1, .refl e⟩
    · rw [List.mem_singleton.mp he]
      exact .inr (hnew _)
  · refine ⟨e, List.mem_append_left _ (List.mem_filter.mpr ⟨he, ?_⟩), .refl e⟩
    exact bne_iff_ne.mpr hne
  · exact ⟨_, List.mem_append_right _ (List.mem_singleton_self _), hnew _⟩

theorem takesUnions : TakesUnions sdk bumps where
  bump b bump b' i h := by
    cases h
    refine ⟨fun e he => ⟨e, he, .refl e⟩, fun e he => ⟨e, he, .refl e⟩, keepsBumps_append b _, ?_⟩
    refine ⟨bump, ?_, fun _ hp => hp⟩
    rw [List.getElem?_append_right (Nat.le_refl _), Nat.sub_self, List.getElem?_cons_zero]
  tx b tx raw txid bumpIndex b' hraw hid h := by
    cases bumpIndex with
    | none => exact replaceTx_merges hraw hid h
    | some i => exact replaceTx_merges hraw hid h

/-- The payment without its transaction. -/
def barePayment : BeefTx :=
  { txid := Sample.paymentTxid, tx := none, bumpIndex := none, inputTxids := [] }

/-- Only the txid of the payment. -/
def bare : Beef :=
  { atomicTxid := none, txs := [barePayment], bumps := [] }

/-- The payment's txid and the proven funding that it spends. -/
def withFunding : Beef :=
  { atomicTxid := none, txs := [Sample.fundingBeefTx, barePayment], bumps := [Sample.fundingBump] }

theorem pending_named : Sample.pendingBeef.Named sdk := by
  intro e he tx htx
  rcases List.mem_cons.mp he with rfl | he
  · cases htx
    rfl
  · rw [List.mem_singleton.mp he] at htx ⊢
    cases htx
    rfl

theorem pending_closed : Sample.pendingBeef.Closed := by
  intro e he tx htx
  rcases List.mem_cons.mp he with rfl | he
  · exact .inl rfl
  · rw [List.mem_singleton.mp he] at htx ⊢
    cases htx
    refine .inr fun input hinput source hsource => ?_
    rw [List.mem_singleton.mp hinput] at hsource
    cases hsource
    exact List.mem_cons_self

end Party

/-- The payment gains its transaction, and the proven funding that it spends is there. -/
theorem verifyReturnedTxidOnly_resolves_payment :
    ∃ beef', verifyReturnedTxidOnly Party.sdk Party.bumps Party.withFunding Sample.pendingBeef false
        none = .ok beef' ∧
      (∀ t, t ∈ beef'.txids ↔ t ∈ Party.withFunding.txids) ∧
      ∀ e ∈ beef'.txs, ¬e.isTxidOnly := by
  obtain ⟨beef', h⟩ : ∃ beef', verifyReturnedTxidOnly Party.sdk Party.bumps Party.withFunding
      Sample.pendingBeef false none = .ok beef' := ⟨_, rfl⟩
  obtain ⟨hknown, htxids, -⟩ := verifyReturnedTxidOnly_resolves _ _ _ _ _ _ Party.takesUnions
    Party.pending_named Party.pending_closed h
  exact ⟨beef', h, htxids, fun e he honly => Bool.false_ne_true (hknown e he honly)⟩

/-- Of a BEEF with the txid of the payment alone, the payment's input stays absent, though the
wallet has it. -/
theorem resolved_not_verifiable :
    ∃ beef', verifyReturnedTxidOnly Party.sdk Party.bumps Party.bare Sample.pendingBeef false none =
        .ok beef' ∧
      Sample.pendingBeef.Closed ∧ ¬Party.bare.Verifiable beef' := by
  refine ⟨_, rfl, Party.pending_closed, fun h => ?_⟩
  have hmem := List.mem_append_right (Party.bare.txs.filter (·.txid != Sample.paymentTxid))
    (List.mem_singleton_self Sample.paymentBeefTx)
  have hpayment := h Sample.paymentBeefTx hmem (by decide) Sample.paymentTx rfl
  rcases hpayment with hproof | hinputs
  · cases hproof
  · exact absurd (hinputs ⟨some Sample.fundingTxid, 0⟩ List.mem_cons_self _ rfl) (by decide)

end WalletToolbox
