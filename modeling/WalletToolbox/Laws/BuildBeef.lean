import WalletToolbox.Lib.Guarded
import WalletToolbox.Services.BuildBeef

/-! # The BEEFs of the services are closed

A txid is known to the walk before its transaction is in the BEEF, and an input that is known is not
walked again.
That leaves no gap, since the transaction follows at once: the transactions are always those of the
known txids, in the order in which these were entered. -/

namespace WalletToolbox

open WalletToolbox.Lib WalletToolbox.Lib.Explore
open WalletToolbox.Storage (Bytes WalletError)

section Closed

variable {sdk : BuilderSdk} {source : BeefTxSource} {txid : String} {beef beef' : Beef}

/-- What `BeefTx::from_tx` makes of a transaction. -/
def BuilderSdk.KeepsTx (sdk : BuilderSdk) : Prop :=
  ∀ tx bumpIndex entry, sdk.fromTx tx bumpIndex = .ok entry →
    sdk.txidOf tx = .ok entry.txid ∧ entry.tx = some tx ∧ entry.bumpIndex = bumpIndex

/-- The transaction that the source gives for a txid. -/
def BeefTxSource.Gives (source : BeefTxSource) (sdk : BuilderSdk) (txid : String) (tx : Tx) : Prop :=
  ∃ rawTx, source.sourceRawTx txid = .ok (some rawTx) ∧ sdk.parseTx rawTx = .ok tx

/-- The merkle path that the source gives for a txid. -/
def BeefTxSource.Proves (source : BeefTxSource) (sdk : BuilderSdk) (txid : String)
    (merklePath : MerklePath) : Prop :=
  ∃ mpBytes, source.sourceMerklePath txid = .ok (some mpBytes) ∧ sdk.parseBump mpBytes = .ok merklePath

/-- The source's raw transaction for a txid has that txid. -/
def BeefTxSource.Names (source : BeefTxSource) (sdk : BuilderSdk) : Prop :=
  ∀ txid tx, source.Gives sdk txid tx → sdk.txidOf tx = .ok txid

/-- An unproven transaction and one of its inputs. -/
def BeefTxSource.Spends (source : BeefTxSource) (sdk : BuilderSdk) (txid inputTxid : String) : Prop :=
  ∃ tx, source.Gives sdk txid tx ∧ source.sourceMerklePath txid = .ok none ∧
    ∃ input ∈ tx.inputs, input.sourceTxid = some inputTxid

/-- The txids that a walk from `txid` may come to. -/
def BeefTxSource.ancestry (source : BeefTxSource) (sdk : BuilderSdk) (txid : String) : Set String :=
  { t | Relation.ReflTransGen (source.Spends sdk) txid t }

/-- An entry is made of what the source gives for its txid. -/
structure Sourced (sdk : BuilderSdk) (source : BeefTxSource) (bumps : List MerklePath)
    (entry : BeefTx) : Prop where
  gives : ∃ tx, source.Gives sdk entry.txid tx ∧ entry.tx = some tx
  proves : ∀ i, entry.bumpIndex = some i →
    ∃ merklePath, source.Proves sdk entry.txid merklePath ∧ bumps[i]? = some merklePath
  unproven : entry.bumpIndex = none → source.sourceMerklePath entry.txid = .ok none

/-- A BEEF that proves a transaction. -/
structure ClosedBeef (sdk : BuilderSdk) (source : BeefTxSource) (txid : String) (beef : Beef) :
    Prop where
  requested : ∃ entry ∈ beef.txs, entry.txid = txid ∧ entry.tx.isSome
  nodup : (beef.txs.map (·.txid)).Nodup
  bumps : ∀ entry ∈ beef.txs, ∀ i, entry.bumpIndex = some i →
    ∃ merklePath, source.Proves sdk entry.txid merklePath ∧ beef.bumps[i]? = some merklePath
  inputs : ∀ entry ∈ beef.txs, entry.bumpIndex = none → ∃ tx, entry.tx = some tx ∧
    ∀ input ∈ tx.inputs, ∀ inputTxid, input.sourceTxid = some inputTxid →
      ∃ parent ∈ beef.txs, parent.txid = inputTxid ∧ parent.tx.isSome

/-! ## One transaction -/

theorem Sourced.grow {bumps : List MerklePath} {entry : BeefTx}
    (h : Sourced sdk source bumps entry) (more : List MerklePath) :
    Sourced sdk source (bumps ++ more) entry where
  gives := h.gives
  proves i hi := by
    obtain ⟨merklePath, hproves, hbump⟩ := h.proves i hi
    refine ⟨merklePath, hproves, ?_⟩
    rw [List.getElem?_append_left (List.getElem?_eq_some_iff.mp hbump).1]
    exact hbump
  unproven := h.unproven

/-- The error of an SDK call is passed on. -/
theorem internalError_eq_ok {α : Type} {message : String} {r : Except String α} {a : α} :
    internalError message r = .ok a ↔ r = .ok a := by
  cases r with
  | error e => simp [internalError, Except.mapError]
  | ok b => simp [internalError, Except.mapError]

/-- What adding a transaction does to the BEEF. -/
structure Added (sdk : BuilderSdk) (source : BeefTxSource) (txid : String) (beef beef' : Beef)
    (inputTxids : List String) : Prop where
  entry : ∃ entry, entry.txid = txid ∧ beef'.txs = beef.txs ++ [entry] ∧
    Sourced sdk source beef'.bumps entry
  bumps : ∃ more, beef'.bumps = beef.bumps ++ more
  inputs : ∀ c, source.Spends sdk txid c ↔ c ∈ inputTxids

theorem addTxid_added (hfrom : sdk.KeepsTx) (hsource : source.Names sdk) {inputTxids : List String}
    (h : addTxid sdk source txid beef = .ok (beef', inputTxids)) :
    Added sdk source txid beef beef' inputTxids := by
  obtain ⟨raw, hraw, h⟩ := bind_ok_iff.mp h
  cases raw with
  | none => cases h
  | some rawTx =>
  obtain ⟨tx, hparse, h⟩ := bind_ok_iff.mp h
  rw [internalError_eq_ok] at hparse
  have hgives : source.Gives sdk txid tx := ⟨rawTx, hraw, hparse⟩
  have hgiven : ∀ tx', source.Gives sdk txid tx' → tx' = tx := by
    rintro tx' ⟨rawTx', hraw', hparse'⟩
    rw [hraw] at hraw'
    cases hraw'
    rw [hparse] at hparse'
    exact (Except.ok.inj hparse').symm
  -- the entry has the txid that the source was asked for
  have hentry : ∀ bumpIndex entry, sdk.fromTx tx bumpIndex = .ok entry →
      entry.txid = txid ∧ entry.tx = some tx ∧ entry.bumpIndex = bumpIndex := by
    intro bumpIndex entry hmade
    obtain ⟨htxid, htx, hbump⟩ := hfrom _ _ _ hmade
    rw [hsource _ _ hgives] at htxid
    exact ⟨(Except.ok.inj htxid).symm, htx, hbump⟩
  obtain ⟨path, hpath, h⟩ := bind_ok_iff.mp h
  cases path with
  | some mpBytes =>
    obtain ⟨merklePath, hbump, h⟩ := bind_ok_iff.mp h
    obtain ⟨entry, hmade, h⟩ := bind_ok_iff.mp h
    rw [internalError_eq_ok] at hbump hmade
    cases h
    obtain ⟨rfl, htx, hindex⟩ := hentry _ _ hmade
    refine ⟨⟨entry, rfl, rfl, ⟨tx, hgives, htx⟩, ?_, ?_⟩, ⟨[merklePath], rfl⟩, ?_⟩
    · intro i hi
      rw [hindex] at hi
      cases hi
      exact ⟨merklePath, ⟨mpBytes, hpath, hbump⟩, by simp⟩
    · intro hnone
      rw [hindex] at hnone
      cases hnone
    · intro c
      constructor
      · rintro ⟨_, _, hunproven, _⟩
        rw [hpath] at hunproven
        cases hunproven
      · intro hc
        cases hc
  | none =>
    obtain ⟨entry, hmade, h⟩ := bind_ok_iff.mp h
    rw [internalError_eq_ok] at hmade
    cases h
    obtain ⟨rfl, htx, hindex⟩ := hentry _ _ hmade
    refine ⟨⟨entry, rfl, rfl, ⟨tx, hgives, htx⟩, ?_, fun _ => hpath⟩,
      ⟨[], (List.append_nil _).symm⟩, ?_⟩
    · intro i hi
      rw [hindex] at hi
      cases hi
    · intro c
      rw [List.mem_filterMap]
      constructor
      · rintro ⟨tx', hgives', -, hinput⟩
        cases hgiven _ hgives'
        exact hinput
      · intro hinput
        exact ⟨tx, hgives, hpath, hinput⟩

/-! ## The walk -/

/-- The transactions of the BEEF are those of the txids that were entered. -/
structure Built (sdk : BuilderSdk) (source : BeefTxSource) (w : Walk String Beef) : Prop where
  txids : w.state.txs.map (·.txid) = w.visited.reverse
  nodup : w.visited.Nodup
  sourced : ∀ entry ∈ w.state.txs, Sourced sdk source w.state.bumps entry

theorem built_empty : Built sdk source { state := Beef.empty, visited := [] } :=
  ⟨rfl, List.nodup_nil, fun _ h => by cases h⟩

theorem Built.enter {w : Walk String Beef} (hw : Built sdk source w) (hnew : txid ∉ w.visited)
    {inputTxids : List String} (h : Added sdk source txid w.state beef' inputTxids) :
    Built sdk source { state := beef', visited := txid :: w.visited } := by
  obtain ⟨entry, rfl, htxs, hsourced⟩ := h.entry
  obtain ⟨more, hbumps⟩ := h.bumps
  refine ⟨?_, List.nodup_cons.mpr ⟨hnew, hw.nodup⟩, ?_⟩
  · show beef'.txs.map (·.txid) = (entry.txid :: w.visited).reverse
    rw [htxs, List.map_append, hw.txids, List.reverse_cons]
    rfl
  · show ∀ e ∈ beef'.txs, Sourced sdk source beef'.bumps e
    intro e he
    rw [htxs, List.mem_append, List.mem_singleton] at he
    rcases he with he | rfl
    · rw [hbumps]
      exact (hw.sourced e he).grow more
    · exact hsourced

theorem mergeTxidIntoBeef_done (hfrom : sdk.KeepsTx) (hsource : source.Names sdk) {depth : Nat}
    {w w' : Walk String Beef} (h : mergeTxidIntoBeef sdk source depth txid w = some (.ok w')) :
    Done (addTxid sdk source) (source.Spends sdk) w [txid] w' :=
  explore_done (fun _ _ _ _ henter c hc => ((addTxid_added hfrom hsource henter).inputs c).mp hc) h

theorem Built.merge (hfrom : sdk.KeepsTx) (hsource : source.Names sdk) {w w' : Walk String Beef}
    (h : Leads (addTxid sdk source) w w') (hw : Built sdk source w) : Built sdk source w' :=
  h.inv (fun _ _ _ _ hw hnew henter => hw.enter hnew (addTxid_added hfrom hsource henter)) hw

/-- A BEEF is closed when all that lies behind its transactions was entered. -/
theorem Built.closed {w : Walk String Beef} (hw : Built sdk source w) (htxid : txid ∈ w.visited)
    (hfollowed : ∀ t ∈ w.visited, ∀ c, source.Spends sdk t c → c ∈ w.visited) :
    ClosedBeef sdk source txid w.state := by
  have hmem : ∀ t, t ∈ w.state.txs.map (·.txid) ↔ t ∈ w.visited := by
    intro t
    rw [hw.txids, List.mem_reverse]
  have hfull : ∀ t ∈ w.visited, ∃ entry ∈ w.state.txs, entry.txid = t ∧ entry.tx.isSome := by
    intro t ht
    obtain ⟨entry, he, rfl⟩ := List.mem_map.mp ((hmem t).mpr ht)
    obtain ⟨tx, -, htx⟩ := (hw.sourced entry he).gives
    exact ⟨entry, he, rfl, by rw [htx]; rfl⟩
  refine ⟨hfull _ htxid, ?_, fun entry he => (hw.sourced entry he).proves, ?_⟩
  · rw [hw.txids]
    exact List.nodup_reverse.mpr hw.nodup
  · intro entry he hunproven
    obtain ⟨tx, hgives, htx⟩ := (hw.sourced entry he).gives
    refine ⟨tx, htx, ?_⟩
    intro input hinput inputTxid hsourceTxid
    have hvisited : entry.txid ∈ w.visited := (hmem _).mp (List.mem_map_of_mem he)
    exact hfull _ (hfollowed _ hvisited inputTxid
      ⟨tx, hgives, (hw.sourced entry he).unproven hunproven, input, hinput, hsourceTxid⟩)

/-- More depth does not change what has been returned. -/
theorem buildBeefForTxid_mono {depth : Nat} {r : Except WalletError Beef}
    (h : buildBeefForTxid sdk source depth txid = some r) (more : Nat) :
    buildBeefForTxid sdk source (depth + more) txid = some r := by
  obtain ⟨walked, hwalked, rfl⟩ := Option.map_eq_some_iff.mp h
  have hmore : mergeTxidIntoBeef sdk source (depth + more) txid
      { state := Beef.empty, visited := [] } = some walked :=
    explore_mono (Nat.le_add_right _ more) hwalked
  rw [buildBeefForTxid, hmore]
  rfl

theorem buildBeefForTxid_ends (hfrom : sdk.KeepsTx) (hsource : source.Names sdk)
    (hfinite : (source.ancestry sdk txid).Finite) :
    ∃ depth, (buildBeefForTxid sdk source depth txid).isSome := by
  have hclosed : Closed (addTxid sdk source) hfinite.toFinset.toList := by
    intro t ht beef beef' inputTxids h c hc
    rw [Finset.mem_toList, Set.Finite.mem_toFinset] at ht ⊢
    exact Relation.ReflTransGen.tail ht (((addTxid_added hfrom hsource h).inputs c).mpr hc)
  have hroot : txid ∈ hfinite.toFinset.toList := by
    rw [Finset.mem_toList, Set.Finite.mem_toFinset]
    exact Relation.ReflTransGen.refl
  have hends := explore_ends (w := { state := Beef.empty, visited := [] }) hclosed hroot
    (Nat.lt_succ_self _)
  refine ⟨(missing hfinite.toFinset.toList { state := Beef.empty, visited := [] }).succ, ?_⟩
  rw [buildBeefForTxid, Option.isSome_map]
  exact hends

/-- Over a finite ancestry the recursion ends, and a BEEF that is returned is closed. -/
theorem buildBeefForTxid_closed (hfrom : sdk.KeepsTx) (hsource : source.Names sdk)
    (hfinite : (source.ancestry sdk txid).Finite) :
    (∃ depth r, ∀ more, buildBeefForTxid sdk source (depth + more) txid = some r) ∧
      ∀ depth beef, buildBeefForTxid sdk source depth txid = some (.ok beef) →
        ClosedBeef sdk source txid beef := by
  constructor
  · obtain ⟨depth, hends⟩ := buildBeefForTxid_ends hfrom hsource hfinite
    obtain ⟨r, hr⟩ := Option.isSome_iff_exists.mp hends
    exact ⟨depth, r, buildBeefForTxid_mono hr⟩
  · intro depth beef h
    obtain ⟨r, hr, hbody⟩ := Option.map_eq_some_iff.mp h
    obtain ⟨w, rfl, hreturned⟩ := bind_ok_iff.mp hbody
    have hdone := mergeTxidIntoBeef_done hfrom hsource hr
    have hbuilt := built_empty.merge hfrom hsource hdone.leads
    have hclosed : ClosedBeef sdk source txid w.state :=
      hbuilt.closed (hdone.arrived (List.mem_singleton_self _))
        fun t ht => (hdone.followed t ht).resolve_left List.not_mem_nil
    by_cases hempty : w.state.txs.isEmpty = true
    · rw [if_pos hempty] at hreturned
      cases hreturned
    · rw [if_neg hempty] at hreturned
      cases hreturned
      exact hclosed

end Closed

/-! ## A diamond -/

namespace Diamond

/-- Transaction 3 spends transactions 1 and 2, and both of them spend transaction 0. -/
def inputsOf : Nat → List String
  | 1 | 2 => ["0"]
  | 3 => ["1", "2"]
  | _ => []

def tx (n : Nat) : Tx where
  version := n
  inputs := (inputsOf n).map fun txid => { sourceTxid := some txid, sourceOutputIndex := 0 }
  outputs := []
  lockTime := 0

def name (n : Nat) : String := (["0", "1", "2", "3"][n]?).getD ""

def sdk : BuilderSdk where
  parseTx
    | [n] => .ok (tx n.toNat)
    | _ => .error "not a transaction"
  txBytes _ := .ok []
  txidOf t := .ok (name t.version)
  parseBeef _ := .error "not a BEEF"
  beefBytes _ := .ok []
  mergeBeef beef _ := .ok beef
  mergeRawTx beef _ := .ok beef
  sortTxs beef := beef
  computeRoot _ _ := .error "no root"
  bumpBytes _ := .ok []
  parseBump _ := .ok { blockHeight := 7, path := [] }
  mergeBump beef _ := .ok (beef, 0)
  mergeProvenTx beef _ _ := .ok beef
  fromTx t bumpIndex :=
    .ok { txid := name t.version, tx := some t, bumpIndex, inputTxids := inputsOf t.version }

/-- Only transaction 0 is mined. -/
def source : BeefTxSource where
  sourceMerklePath txid := .ok (if txid = "0" then some [7] else none)
  sourceRawTx txid :=
    .ok (if txid = "0" then some [0] else if txid = "1" then some [1] else
      if txid = "2" then some [2] else if txid = "3" then some [3] else none)

theorem keepsTx : sdk.KeepsTx := by
  intro t bumpIndex entry h
  cases h
  exact ⟨rfl, rfl, rfl⟩

theorem gives_cases {txid : String} {t : Tx} (h : source.Gives sdk txid t) :
    ∃ n, n < 4 ∧ txid = name n ∧ t = tx n := by
  obtain ⟨rawTx, hraw, hparse⟩ := h
  simp only [source, Except.ok.injEq] at hraw
  split_ifs at hraw with h0 h1 h2 h3 <;> cases hraw <;> cases hparse
  · exact ⟨0, by decide, h0, rfl⟩
  · exact ⟨1, by decide, h1, rfl⟩
  · exact ⟨2, by decide, h2, rfl⟩
  · exact ⟨3, by decide, h3, rfl⟩

theorem names : source.Names sdk := by
  intro txid t h
  obtain ⟨n, -, rfl, rfl⟩ := gives_cases h
  rfl

theorem ancestry_finite : (source.ancestry sdk "3").Finite := by
  refine Set.Finite.subset (Set.finite_mem_finset {"0", "1", "2", "3"}) ?_
  intro t ht
  induction ht with
  | refl => simp
  | tail _ hspends _ =>
    obtain ⟨t, hgives, -, input, hinput, hinputTxid⟩ := hspends
    obtain ⟨n, hn, -, rfl⟩ := gives_cases hgives
    have hinputs : ∀ n < 4, ∀ input ∈ (tx n).inputs, ∀ c, input.sourceTxid = some c →
        c = "0" ∨ c = "1" ∨ c = "2" := by
      intro n hn input hinput c hc
      obtain ⟨txid, htxid, rfl⟩ := List.mem_map.mp hinput
      cases hc
      match n, hn, htxid with
      | 1, _, htxid | 2, _, htxid => exact .inl (List.mem_singleton.mp htxid)
      | 3, _, htxid => exact .inr (by simpa [inputsOf] using htxid)
    rcases hinputs n hn input hinput _ hinputTxid with rfl | rfl | rfl <;> simp

end Diamond

theorem buildBeefForTxid_closed_diamond :
    ∃ beef, buildBeefForTxid Diamond.sdk Diamond.source 4 "3" = some (.ok beef) ∧
      beef.txs.map (·.txid) = ["3", "1", "0", "2"] ∧
      ClosedBeef Diamond.sdk Diamond.source "3" beef :=
  ⟨_, rfl, rfl, (buildBeefForTxid_closed Diamond.keepsTx Diamond.names Diamond.ancestry_finite).2 4 _
    rfl⟩

end WalletToolbox
