import WalletToolbox.Laws.Outcomes
import WalletToolbox.Lib.Guarded
import WalletToolbox.Storage.Beef

/-! # What a BEEF from storage depends on

The walk reads the proofs, and of the first transaction with a txid its raw transaction and its input
BEEF.
It visits a stored transaction once, so more depth than there are transactions does not matter, and it
finds the same when only transactions are gone that it did not collect. -/

namespace WalletToolbox.Storage

open WalletToolbox.Lib

variable {d d' d'' : Tables} {sdk : Sdk} {bumps : BumpSdk} {trustSelf : TrustSelf} {known : List String}

/-- Two databases from which a walk reads the same. -/
structure SameSources (d d' : Tables) : Prop where
  provenTxs : d'.provenTxs = d.provenTxs
  rows : d'.transactions.rows.length = d.transactions.rows.length
  sources : ∀ txid, (d'.firstTx txid).map (fun t => (t.rawTx, t.inputBeef)) =
    (d.firstTx txid).map fun t => (t.rawTx, t.inputBeef)

theorem SameSources.refl (d : Tables) : SameSources d d := ⟨rfl, rfl, fun _ => rfl⟩

theorem SameSources.trans (h : SameSources d d') (h' : SameSources d' d'') : SameSources d d'' :=
  ⟨h'.provenTxs.trans h.provenTxs, h'.rows.trans h.rows,
    fun txid => (h'.sources txid).trans (h.sources txid)⟩

theorem SameSources.of_transactions (hp : d'.provenTxs = d.provenTxs)
    (ht : d'.transactions = d.transactions) : SameSources d d' := by
  refine ⟨hp, by rw [ht], fun txid => ?_⟩
  rw [Tables.firstTx, Tables.firstTx, ht]

theorem SameSources.setFirstStatus (txid : String) (status : TransactionStatus) :
    SameSources d (d.setFirstStatus txid status) := by
  refine ⟨setFirstStatus_provenTxs, ?_, fun other => ?_⟩
  · unfold Tables.setFirstStatus
    split
    · rfl
    · exact List.length_map _
  · unfold Tables.setFirstStatus
    cases d.firstTx txid with
    | none => rfl
    | some f =>
      simp only [Tables.firstTx, Stmt.apply]
      refine (congrArg _ (Table.first_update ?_)).trans ?_
      · exact fun _ => rfl
      · rw [Option.map_map]
        refine congrArg (Option.map · _) (funext fun t => ?_)
        simp only [Function.comp_apply]
        split <;> rfl

theorem collectTxRecursive_congr (h : SameSources d d') (depth : Nat) (txid : String) (w : Walk) :
    collectTxRecursive sdk d' trustSelf known depth txid w =
      collectTxRecursive sdk d trustSelf known depth txid w := by
  induction depth generalizing txid w with
  | zero => rfl
  | succ depth ih =>
    have hsource := h.sources txid
    simp only [Tables.firstTx] at hsource
    simp only [collectTxRecursive, h.provenTxs, ih]
    cases hd : d.transactions.first (·.txid == some txid) with
    | none =>
      rw [hd, Option.map_none, Option.map_eq_none_iff] at hsource
      rw [hsource]
    | some t =>
      rw [hd, Option.map_some, Option.map_eq_some_iff] at hsource
      obtain ⟨t', ht', hsame⟩ := hsource
      obtain ⟨hraw, hbeef⟩ := Prod.mk.inj hsame
      simp only [ht', hraw, hbeef]

theorem getValidBeefForTxid_congr (h : SameSources d d') (txid : String) :
    getValidBeefForTxid sdk bumps trustSelf known d' txid =
      getValidBeefForTxid sdk bumps trustSelf known d txid := by
  simp only [getValidBeefForTxid, collectTxRecursive_congr h, h.rows]

/-! ## How a walk grows -/

structure Walk.Grows (w w' : Walk) : Prop where
  visited : w.visited ⊆ w'.visited
  collected : w.collected ⊆ w'.collected

namespace Walk.Grows

variable {w w' w'' : Walk}

theorem refl (w : Walk) : w.Grows w := ⟨List.Subset.refl _, List.Subset.refl _⟩

theorem trans (h : w.Grows w') (h' : w'.Grows w'') : w.Grows w'' :=
  ⟨List.Subset.trans h.visited h'.visited, List.Subset.trans h.collected h'.collected⟩

theorem visit (w : Walk) (txid : String) : w.Grows (w.visit txid) :=
  ⟨List.subset_cons_self _ _, List.Subset.refl _⟩

theorem push (w : Walk) (tx : CollectedTx) : w.Grows (w.push tx) :=
  ⟨List.Subset.refl _, List.subset_append_left _ _⟩

theorem pushKnown (w : Walk) (known : List String) (txid : String) :
    w.Grows (w.pushKnown known txid) := by
  unfold Walk.pushKnown
  split
  · exact push w _
  · exact refl w

end Walk.Grows

/-- What the walk does with one input of a stored transaction. -/
def walkInput (walk : String → Walk → Except String Walk) (known : List String) (w : Walk)
    (input : TxInput) : Except String Walk :=
  match input.sourceTxid with
  | none => .ok w
  | some source =>
    if w.visited.contains source then .ok w
    else if known.contains source then .ok ((w.visit source).push (.only source))
    else walk source w

theorem walkInput_grows {walk : String → Walk → Except String Walk}
    (hwalk : ∀ txid w w', walk txid w = .ok w' → w.Grows w') {w w' : Walk} {input : TxInput}
    (h : walkInput walk known w input = .ok w') : w.Grows w' := by
  unfold walkInput at h
  split at h
  · cases h; exact .refl w
  · split at h
    · cases h; exact .refl w
    · split at h
      · cases h; exact (Walk.Grows.visit w _).trans (.push _ _)
      · exact hwalk _ _ _ h

/-- What the walk does with a transaction that it finds in the store. -/
def walkStored (sdk : Sdk) (walk : String → Walk → Except String Walk) (trustSelf : TrustSelf)
    (known : List String) (txid : String) (tx : Transaction) (w : Walk) : Except String Walk :=
  if trustSelf = .known then .ok (w.push (.only txid))
  else
    match tx.rawTx with
    | none => .ok (w.pushKnown known txid)
    | some rawTx => do
      let parsed ← sdk.parseTx rawTx
      let w ← parsed.inputs.foldlM (walkInput walk known) w
      .ok (w.push { rawTx, txid, merklePath := none, txidOnly := false
                    inputBeef := tx.inputBeef.filter (!·.isEmpty) })

/-- One level of the walk. -/
theorem collectTxRecursive_succ (depth : Nat) (txid : String) (w : Walk) :
    collectTxRecursive sdk d trustSelf known (depth + 1) txid w =
      if w.visited.contains txid then .ok w
      else match d.provenTxs.first (·.txid == txid) with
        | some ptx =>
          if trustSelf = .known then .ok ((w.visit txid).push (.only txid))
          else .ok ((w.visit txid).push { rawTx := ptx.rawTx, txid, merklePath := some ptx.merklePath
                                          txidOnly := false, inputBeef := none })
        | none => match d.transactions.first (·.txid == some txid) with
          | none => .ok ((w.visit txid).pushKnown known txid)
          | some tx => walkStored sdk (collectTxRecursive sdk d trustSelf known depth) trustSelf known txid
              tx (w.visit txid) :=
  rfl

theorem walkStored_grows {walk : String → Walk → Except String Walk}
    (hwalk : ∀ txid w w', walk txid w = .ok w' → w.Grows w') {txid : String} {tx : Transaction}
    {w w' : Walk} (h : walkStored sdk walk trustSelf known txid tx w = .ok w') : w.Grows w' := by
  unfold walkStored at h
  split at h
  · cases h; exact .push w _
  · split at h
    · cases h; exact .pushKnown w known txid
    · obtain ⟨parsed, -, h⟩ := bind_ok_iff.mp h
      obtain ⟨w₁, hinputs, h⟩ := bind_ok_iff.mp h
      cases h
      refine Walk.Grows.trans ?_ (.push w₁ _)
      exact foldlM_keeps (I := w.Grows) (fun w₂ hw₂ input w₃ hw₃ => hw₂.trans (walkInput_grows hwalk hw₃))
        (.refl w) hinputs

theorem collectTxRecursive_grows {depth : Nat} {txid : String} {w w' : Walk}
    (h : collectTxRecursive sdk d trustSelf known depth txid w = .ok w') : w.Grows w' := by
  induction depth generalizing txid w w' with
  | zero => cases h; exact .refl w
  | succ depth ih =>
    rw [collectTxRecursive_succ] at h
    split at h
    · cases h; exact .refl w
    · refine (Walk.Grows.visit w txid).trans ?_
      split at h
      · split at h
        · cases h; exact .push _ _
        · cases h; exact .push _ _
      · split at h
        · cases h; exact .pushKnown _ known txid
        · exact walkStored_grows (fun _ _ _ => ih) h

/-! ## How deep a walk goes -/

/-- The walk has not visited the transaction. -/
def Walk.unvisited (w : Walk) (t : Transaction) : Bool :=
  t.txid.any (!w.visited.contains ·)

/-- The number of transactions that the walk may still visit. -/
def Walk.left (d : Tables) (w : Walk) : Nat :=
  d.transactions.rows.countP w.unvisited

theorem Walk.Grows.unvisited {w w' : Walk} (h : w.Grows w') {t : Transaction}
    (ht : w'.unvisited t = true) : w.unvisited t = true := by
  obtain ⟨txid, htxid, hnot⟩ := (Option.any_eq_true _ _).mp ht
  refine (Option.any_eq_true _ _).mpr ⟨txid, htxid, ?_⟩
  simp only [Bool.not_eq_true', List.contains_eq_mem, decide_eq_false_iff_not] at hnot ⊢
  exact fun hin => hnot (h.visited hin)

theorem Walk.Grows.left_le {w w' : Walk} (h : w.Grows w') : w'.left d ≤ w.left d :=
  List.countP_mono_left fun _ _ ht => h.unvisited ht

/-- A visit to a stored transaction leaves fewer. -/
theorem Walk.left_visit_lt {w : Walk} {txid : String} {t : Transaction}
    (hfirst : d.transactions.first (·.txid == some txid) = some t)
    (hnew : w.visited.contains txid = false) : (w.visit txid).left d < w.left d := by
  obtain ⟨ht, htxid⟩ := Table.first_some hfirst
  obtain ⟨before, after, hrows⟩ := List.append_of_mem ht
  have htxid : t.txid = some txid := by simpa using htxid
  have hle : ∀ rows : List Transaction, rows.countP (w.visit txid).unvisited ≤ rows.countP w.unvisited :=
    fun _ => List.countP_mono_left fun _ _ h => (Walk.Grows.visit w txid).unvisited h
  have hold : w.unvisited t = true := by
    simpa [Walk.unvisited, htxid] using hnew
  have hnow : (w.visit txid).unvisited t = false := by simp [Walk.unvisited, htxid, Walk.visit]
  have hbefore := hle before
  have hafter := hle after
  simp only [Walk.left, hrows, List.countP_append, List.countP_cons, hold, hnow]
  simp only [if_true, Bool.false_eq_true, if_false]
  omega

/-- Two depths beyond the transactions that are left give the same walk. -/
theorem collectTxRecursive_depth {n m : Nat} {txid : String} {w : Walk} (hn : w.left d < n)
    (hm : w.left d < m) :
    collectTxRecursive sdk d trustSelf known n txid w = collectTxRecursive sdk d trustSelf known m txid w := by
  induction n generalizing m txid w with
  | zero => omega
  | succ n ih =>
    obtain ⟨m, rfl⟩ : ∃ k, m = k + 1 := ⟨m - 1, by omega⟩
    rw [collectTxRecursive_succ, collectTxRecursive_succ]
    cases hvisited : w.visited.contains txid with
    | true => simp
    | false =>
      simp only [Bool.false_eq_true, if_false]
      cases d.provenTxs.first (·.txid == txid) with
      | some ptx => rfl
      | none =>
        cases hfirst : d.transactions.first (·.txid == some txid) with
        | none => rfl
        | some t =>
          have hleft := Walk.left_visit_lt hfirst hvisited
          simp only [walkStored]
          split
          · rfl
          · split
            · rfl
            · refine bind_congr fun parsed => ?_
              congr 1
              refine foldlM_congr (I := (w.visit txid).Grows) ?_ ?_ (.refl _)
              · exact fun w₁ hw₁ input w₂ hw₂ =>
                  hw₁.trans (walkInput_grows (fun _ _ _ => collectTxRecursive_grows) hw₂)
              · intro w₁ hw₁ input _
                have hle := hw₁.left_le (d := d)
                have hwalk : ∀ source, collectTxRecursive sdk d trustSelf known n source w₁ =
                    collectTxRecursive sdk d trustSelf known m source w₁ :=
                  fun source => ih (by omega) (by omega)
                simp only [walkInput, hwalk]

/-! ## Transactions that a walk does not collect -/

/-- Transactions are gone from `d'`, but none with one of the kept txids. -/
structure KeepsTxids (kept : String → Prop) (d d' : Tables) : Prop where
  provenTxs : d'.provenTxs = d.provenTxs
  rows : d'.transactions.rows.Sublist d.transactions.rows
  kept : ∀ txid, kept txid → d'.transactions.first (·.txid == some txid) =
    d.transactions.first (·.txid == some txid)

theorem KeepsTxids.first_none {kept : String → Prop} (h : KeepsTxids kept d d') {txid : String}
    (hnone : d.transactions.first (·.txid == some txid) = none) :
    d'.transactions.first (·.txid == some txid) = none :=
  Table.first_none.mpr fun t ht => Table.first_none.mp hnone t (h.rows.subset ht)

/-- Every transaction with a txid has its raw transaction. -/
def HasRawTxs (d : Tables) : Prop :=
  ∀ t ∈ d.transactions, t.txid.isSome = true → t.rawTx.isSome = true

/-- A stored transaction with its raw transaction is collected. -/
theorem walkStored_collects {walk : String → Walk → Except String Walk} {txid : String}
    {tx : Transaction} {w w' : Walk} (hraw : tx.rawTx.isSome = true)
    (h : walkStored sdk walk trustSelf known txid tx w = .ok w') :
    ∃ c ∈ w'.collected, c.txid = txid ∧ c.merklePath = none := by
  obtain ⟨rawTx, hrawTx⟩ := Option.isSome_iff_exists.mp hraw
  unfold walkStored at h
  split at h
  · cases h
    exact ⟨_, List.mem_append_right _ (List.mem_singleton.mpr rfl), rfl, rfl⟩
  · rw [hrawTx] at h
    obtain ⟨parsed, -, h⟩ := bind_ok_iff.mp h
    obtain ⟨w₁, -, h⟩ := bind_ok_iff.mp h
    cases h
    exact ⟨_, List.mem_append_right _ (List.mem_singleton.mpr rfl), rfl, rfl⟩

/-- Each of the transactions that the walk collected without a proof has a kept txid. -/
def Walk.Within (kept : String → Prop) (w : Walk) : Prop :=
  ∀ c ∈ w.collected, c.merklePath = none → kept c.txid

theorem Walk.Grows.within {kept : String → Prop} {w w' : Walk} (h : w.Grows w') (hw' : w'.Within kept) :
    w.Within kept :=
  fun c hc => hw' c (h.collected hc)

theorem walkStored_kept {walk walk' : String → Walk → Except String Walk} {kept : String → Prop}
    (hgrows : ∀ txid w w', walk txid w = .ok w' → w.Grows w')
    (hwalk : ∀ txid w w', walk txid w = .ok w' → w'.Within kept → walk' txid w = .ok w')
    {txid : String} {tx : Transaction} {w w' : Walk}
    (h : walkStored sdk walk trustSelf known txid tx w = .ok w') (hkept : w'.Within kept) :
    walkStored sdk walk' trustSelf known txid tx w = .ok w' := by
  unfold walkStored at h ⊢
  split at h
  · rwa [if_pos ‹_›]
  · rw [if_neg ‹_›]
    cases hraw : tx.rawTx with
    | none => rwa [hraw] at h
    | some rawTx =>
      rw [hraw] at h
      obtain ⟨parsed, hparsed, h⟩ := bind_ok_iff.mp h
      obtain ⟨w₁, hinputs, h⟩ := bind_ok_iff.mp h
      cases h
      have hw₁ : w₁.Within kept := (Walk.Grows.push w₁ _).within hkept
      refine bind_ok_iff.mpr ⟨parsed, hparsed, bind_ok_iff.mpr ⟨w₁, ?_, rfl⟩⟩
      refine foldlM_follows Walk.Grows.refl Walk.Grows.trans (fun _ _ _ => walkInput_grows hgrows) ?_ hinputs
      intro w₂ input _ w₃ hstep hgrown
      unfold walkInput at hstep ⊢
      split at hstep
      · exact hstep
      · split at hstep
        · rwa [if_pos ‹_›]
        · rw [if_neg ‹_›]
          split at hstep
          · rwa [if_pos ‹_›]
          · rw [if_neg ‹_›]
            exact hwalk _ _ _ hstep (hgrown.within hw₁)

/-- A walk that collected nothing but kept transactions finds the same when others are gone. -/
theorem collectTxRecursive_kept {kept : String → Prop} (h : KeepsTxids kept d d') (hraw : HasRawTxs d)
    {depth : Nat} {txid : String} {w w' : Walk}
    (hwalk : collectTxRecursive sdk d trustSelf known depth txid w = .ok w')
    (hkept : w'.Within kept) :
    collectTxRecursive sdk d' trustSelf known depth txid w = .ok w' := by
  induction depth generalizing txid w w' with
  | zero => exact hwalk
  | succ depth ih =>
    rw [collectTxRecursive_succ] at hwalk ⊢
    split at hwalk
    · rwa [if_pos ‹_›]
    · rw [if_neg ‹_›, h.provenTxs]
      cases hproven : d.provenTxs.first (·.txid == txid) with
      | some ptx => rwa [hproven] at hwalk
      | none =>
        simp only [hproven] at hwalk ⊢
        cases hfirst : d.transactions.first (·.txid == some txid) with
        | none =>
          rw [hfirst] at hwalk
          rw [h.first_none hfirst]
          exact hwalk
        | some t =>
          obtain ⟨ht, htxid⟩ := Table.first_some hfirst
          rw [hfirst] at hwalk
          have htxid : t.txid.isSome = true := by simp [show t.txid = some txid by simpa using htxid]
          obtain ⟨c, hc, rfl, hproof⟩ := walkStored_collects (hraw t ht htxid) hwalk
          rw [h.kept _ (hkept c hc hproof), hfirst]
          exact walkStored_kept (fun _ _ _ => collectTxRecursive_grows) (fun _ _ _ => ih) hwalk hkept

/-- The BEEF of a txid stays what it is as long as the transactions that its walk collected stay. -/
theorem getValidBeefForTxid_kept {kept : String → Prop} (h : KeepsTxids kept d d') (hraw : HasRawTxs d)
    {txid : String} {w : Walk}
    (hwalk : collectTxRecursive sdk d trustSelf known (d.transactions.rows.length + 1) txid {} = .ok w)
    (hkept : w.Within kept) :
    getValidBeefForTxid sdk bumps trustSelf known d' txid =
      getValidBeefForTxid sdk bumps trustSelf known d txid := by
  have hdepth : collectTxRecursive sdk d' trustSelf known (d'.transactions.rows.length + 1) txid {} =
      collectTxRecursive sdk d' trustSelf known (d.transactions.rows.length + 1) txid {} :=
    collectTxRecursive_depth (Nat.lt_succ_of_le List.countP_le_length)
      (Nat.lt_succ_of_le (List.countP_le_length.trans h.rows.length_le))
  simp only [getValidBeefForTxid, hdepth, collectTxRecursive_kept h hraw hwalk hkept, hwalk]

end WalletToolbox.Storage
