import WalletToolbox.Laws.Arcade
import WalletToolbox.Laws.Judgement
import WalletToolbox.Services.Arc
import WalletToolbox.Services.Bitails

/-! # Faithful broadcast reports

Four providers report on the requested transactions, each from the answers that it got.
A report is faithful when it has one entry for each requested transaction, tells a success only of
what an answer accepted, and is a success itself when all entries are.
For each provider the answers that make its report faithful are stated next to what its answers
accept. -/

namespace WalletToolbox

open WalletToolbox.Lib WalletToolbox.Storage WalletToolbox.Signer

/-- What a report is to say of the requested transactions, and what is concluded from it about a
single one. -/
structure FaithfulReport (accepted : String → Prop) (txids : List String) (r : PostBeefResult) :
    Prop where
  entries : (r.txidResults.map (·.txid)).Perm txids
  acknowledged : ∀ e ∈ r.txidResults, e.status = "success" → accepted e.txid
  overall : r.status = "success" ↔ ∀ e ∈ r.txidResults, e.status = "success"
  classified : ∀ txid, txids = [txid] → classifyBroadcastResults [r] = .success → accepted txid

/-- The statuses of a transaction that was not accepted; the monitor fails it on two of them. -/
def refusals : List String :=
  ["DOUBLE_SPEND_ATTEMPTED", "SEEN_IN_ORPHAN_MEMPOOL", "REJECTED"]

section Reports

variable {accepted : String → Prop} {txids : List String} {r : PostBeefResult}

theorem success_of_classified (h : classifyBroadcastResults [r] = .success) :
    r.status = "success" ∨ ∃ e ∈ r.txidResults, e.status = "success" := by
  have hverdict : signerVerdict [r] = .success := by rw [signerVerdict, h]; rfl
  rw [signerVerdict_eq] at hverdict
  split at hverdict
  · cases hverdict
  split at hverdict
  · next hsuccess =>
    rw [Bool.or_eq_true] at hsuccess
    refine hsuccess.imp (fun hstatus => by simpa [accepts] using hstatus) fun hentry => ?_
    obtain ⟨e, he, hanswer⟩ : ∃ e ∈ r.txidResults, e.answer = .success := by
      simpa [reports] using hentry
    refine ⟨e, he, ?_⟩
    unfold PostTxResultForTxid.answer at hanswer
    split at hanswer
    · next hstatus => simpa using hstatus
    · split_ifs at hanswer
  · split_ifs at hverdict

/-- What is concluded from a report follows from the rest. -/
theorem FaithfulReport.of_entries (hentries : (r.txidResults.map (·.txid)).Perm txids)
    (hacknowledged : ∀ e ∈ r.txidResults, e.status = "success" → accepted e.txid)
    (hoverall : r.status = "success" ↔ ∀ e ∈ r.txidResults, e.status = "success") :
    FaithfulReport accepted txids r where
  entries := hentries
  acknowledged := hacknowledged
  overall := hoverall
  classified txid htxids hclassified := by
    subst htxids
    obtain ⟨e, he, hsuccess⟩ : ∃ e ∈ r.txidResults, e.status = "success" := by
      obtain hstatus | hentry := success_of_classified hclassified
      · obtain ⟨e, he, -⟩ := List.mem_map.mp (hentries.mem_iff.mpr (List.mem_singleton_self txid))
        exact ⟨e, he, hoverall.mp hstatus e he⟩
      · exact hentry
    obtain rfl : e.txid = txid :=
      List.mem_singleton.mp (hentries.mem_iff.mp (List.mem_map_of_mem he))
    exact hacknowledged e he hsuccess

/-- A report of failures only is faithful when there is something to fail. -/
theorem faithful_allFailed {name error : String} :
    FaithfulReport accepted txids (.allFailed name error txids) ↔ txids ≠ [] := by
  have hstatus : ∀ e ∈ txids.map PostTxResultForTxid.serviceFailure, e.status ≠ "success" := by
    intro e he
    obtain ⟨txid, -, rfl⟩ := List.mem_map.mp he
    exact (by decide : "error" ≠ "success")
  constructor
  · rintro h rfl
    exact absurd (h.overall.mpr nofun) (by decide : "error" ≠ "success")
  · intro hne
    refine .of_entries ?_ (fun e he hsuccess => absurd hsuccess (hstatus e he)) ?_
    · rw [PostBeefResult.allFailed, List.map_map]
      exact List.Perm.of_eq (List.map_id'' (fun _ => rfl) txids)
    · refine iff_of_false (by decide : "error" ≠ "success") fun hall => ?_
      obtain ⟨txid, htxid⟩ := List.exists_mem_of_ne_nil _ hne
      have hmem := List.mem_map_of_mem (f := PostTxResultForTxid.serviceFailure) htxid
      exact hstatus _ hmem (hall _ hmem)

end Reports

/-! ## WhatsOnChain -/

namespace WhatsOnChain

/-- The post of a transaction was answered with a success, or with a text that knows it. -/
def Accepted (sdk : Sdk) (answers : Nat → HttpAnswer String) (beef : Bytes) (txids : List String)
    (txid : String) : Prop :=
  ∃ parsed i response, sdk.parseBeef beef = .ok parsed ∧ (rawTxBytes sdk parsed txid).isOk ∧
    txids[i]? = some txid ∧ answers i = .ok response ∧
      (response.isSuccess ∨
        ∃ bodyText, response.body = .ok bodyText ∧ textContains bodyText "already in the mempool")

/-- Something is requested unless the BEEF can be read. -/
def Requested (sdk : Sdk) (beef : Bytes) (txids : List String) : Prop :=
  (∃ parsed, sdk.parseBeef beef = .ok parsed) ∨ txids ≠ []

/-- The entry that the loop adds for a txid. -/
def entryFor (sdk : Sdk) (parsed : Beef) (answers : Nat → HttpAnswer String)
    (requested : String × Nat) : PostTxResultForTxid :=
  match rawTxBytes sdk parsed requested.1 with
  | .error _ => .serviceFailure requested.1
  | .ok _ => txResult requested.1 (answers requested.2)

variable {sdk : Sdk} {parsed : Beef} {answers : Nat → HttpAnswer String}

theorem txResult_txid (txid : String) (answer : HttpAnswer String) :
    (txResult txid answer).txid = txid := by
  unfold txResult
  split
  · dsimp only
    split_ifs <;> rfl
  · rfl

theorem txResult_success {txid : String} {answer : HttpAnswer String}
    (h : (txResult txid answer).status = "success") : ∃ response, answer = .ok response ∧
      (response.isSuccess ∨
        ∃ bodyText, response.body = .ok bodyText ∧ textContains bodyText "already in the mempool") := by
  unfold txResult at h
  split at h
  · next response =>
    refine ⟨response, rfl, ?_⟩
    dsimp only at h
    split_ifs at h with hsuccess hknown hconflict
    · exact Or.inl hsuccess
    · right
      cases hbody : response.body with
      | ok bodyText =>
        rw [hbody] at hknown
        exact ⟨bodyText, rfl, hknown⟩
      | error e =>
        have hempty : ¬textContains "" "already in the mempool" := by decide +kernel
        rw [hbody] at hknown
        exact absurd hknown hempty
    · exact absurd h (by decide : "error" ≠ "success")
    · exact absurd h (by decide : "error" ≠ "success")
  · exact absurd h (by decide : "error" ≠ "success")

theorem entryFor_txid (requested : String × Nat) :
    (entryFor sdk parsed answers requested).txid = requested.1 := by
  unfold entryFor
  split
  · rfl
  · exact txResult_txid _ _

theorem postTx_txidResults (result : PostBeefResult) (requested : String × Nat) :
    (postTx sdk parsed answers result requested).txidResults =
      result.txidResults ++ [entryFor sdk parsed answers requested] := by
  cases hraw : rawTxBytes sdk parsed requested.1 <;> simp only [postTx, entryFor, hraw]

theorem postTx_success (result : PostBeefResult) (requested : String × Nat) :
    (postTx sdk parsed answers result requested).status = "success" ↔
      result.status = "success" ∧ (entryFor sdk parsed answers requested).status = "success" := by
  cases hraw : rawTxBytes sdk parsed requested.1 with
  | error e =>
    by_cases hstatus : result.status = "success" <;>
      simp [postTx, entryFor, hraw, hstatus, PostTxResultForTxid.serviceFailure]
  | ok raw =>
    by_cases hstatus : result.status = "success" <;>
      by_cases hentry : (txResult requested.1 (answers requested.2)).status = "success" <;>
        simp [postTx, entryFor, hraw, hstatus, hentry]

theorem foldl_postTx (result : PostBeefResult) (requests : List (String × Nat)) :
    (requests.foldl (postTx sdk parsed answers) result).txidResults =
        result.txidResults ++ requests.map (entryFor sdk parsed answers) ∧
      ((requests.foldl (postTx sdk parsed answers) result).status = "success" ↔
        result.status = "success" ∧
          ∀ requested ∈ requests, (entryFor sdk parsed answers requested).status = "success") := by
  induction requests generalizing result with
  | nil => simp
  | cons requested requests ih =>
    rw [List.foldl_cons, (ih _).1, (ih _).2, postTx_txidResults, postTx_success]
    simp [and_assoc]

theorem faithful_iff {beef : Bytes} {txids : List String} :
    FaithfulReport (Accepted sdk answers beef txids) txids (postBeef sdk answers beef txids) ↔
      Requested sdk beef txids := by
  unfold postBeef Requested
  cases hparse : sdk.parseBeef beef with
  | error e =>
    dsimp only
    rw [faithful_allFailed]
    exact ⟨Or.inr, fun h => h.resolve_left nofun⟩
  | ok parsed =>
    obtain ⟨hresults, hstatus⟩ := @foldl_postTx sdk parsed answers
      { name := "WoC", status := "success", txidResults := [] } txids.zipIdx
    refine iff_of_true (.of_entries ?_ ?_ ?_) (Or.inl ⟨parsed, rfl⟩)
    · rw [hresults, List.nil_append, List.map_map]
      have hmap : txids.zipIdx.map ((·.txid) ∘ entryFor sdk parsed answers) =
          txids.zipIdx.map Prod.fst := List.map_congr_left fun _ _ => entryFor_txid _
      rw [hmap, List.zipIdx_map_fst]
    · intro e he hsuccess
      rw [hresults, List.nil_append] at he
      obtain ⟨⟨txid, i⟩, hmem, rfl⟩ := List.mem_map.mp he
      rw [entryFor_txid]
      unfold entryFor at hsuccess
      split at hsuccess
      · exact absurd hsuccess (by decide : "error" ≠ "success")
      · next raw hraw =>
        obtain ⟨response, hanswer, haccepts⟩ := txResult_success hsuccess
        exact ⟨parsed, i, response, hparse, by rw [hraw]; rfl,
          List.mem_zipIdx_iff_getElem?.mp hmem, hanswer, haccepts⟩
    · rw [hstatus, hresults, List.nil_append, List.forall_mem_map]
      exact and_iff_right rfl

end WhatsOnChain

/-! ## ARC -/

namespace Arc

/-- What a query tells counts as a success. -/
def Counts (data : ArcGetTxData) : Prop :=
  data.txStatus = some "SEEN_ON_NETWORK" ∨ data.txStatus = some "STORED"

/-- The answer to the post names the transaction, or a query names no other one. -/
def Accepted (answer : HttpAnswer ArcResponse) (queries : Nat → HttpAnswer ArcGetTxData)
    (txids : List String) (txid : String) : Prop :=
  ∃ response arcResp, answer = .ok response ∧ response.body = .ok arcResp ∧
    if arcResp.txid = txid then response.isSuccess ∧ arcResp.txStatus.getD "" ∉ refusals
    else ∃ i data, txids[i]? = some txid ∧ getTxData (queries i) = some data ∧ Counts data ∧
      (data.txid = txid ∨ data.txid = "")

/-- The answer to the post names a requested transaction and does not reject it with a 2xx status,
and no query that counts names another transaction than the one it is for. -/
structure Answered (response : HttpResponse ArcResponse) (arcResp : ArcResponse)
    (queries : Nat → HttpAnswer ArcGetTxData) (txids : List String) : Prop where
  named : arcResp.txid ∈ txids
  notRejected : response.isSuccess → arcResp.txStatus ≠ some "REJECTED"
  queried : ∀ i txid data, txids[i]? = some txid → txid ≠ arcResp.txid →
    getTxData (queries i) = some data → Counts data → data.txid = txid ∨ data.txid = ""

/-- What the answers are when the report is faithful. -/
def Requested (answer : HttpAnswer ArcResponse) (queries : Nat → HttpAnswer ArcGetTxData)
    (txids : List String) : Prop :=
  match answer with
  | .error _ => txids ≠ []
  | .ok response =>
    match response.body with
    | .error _ => txids ≠ []
    | .ok arcResp => Answered response arcResp queries txids

/-- The entry that the loop adds for a txid. -/
def entryFor (queries : Nat → HttpAnswer ArcGetTxData) (requested : String × Nat) :
    PostTxResultForTxid :=
  extraResult requested.1 (getTxData (queries requested.2))

variable {queries : Nat → HttpAnswer ArcGetTxData} {response : HttpResponse ArcResponse}
  {arcResp : ArcResponse} {txids : List String}

theorem entryFor_txid (requested : String × Nat) : (entryFor queries requested).txid = requested.1 := by
  unfold entryFor extraResult
  split <;> rfl

theorem entryFor_success (requested : String × Nat) :
    (entryFor queries requested).status = "success" ↔
      ∃ data, getTxData (queries requested.2) = some data ∧ Counts data := by
  unfold entryFor extraResult Counts
  cases getTxData (queries requested.2) with
  | none => simp [PostTxResultForTxid.serviceFailure]
  | some data => simp [or_iff_not_imp_left]

theorem primaryResult_success : (primaryResult response arcResp).status = "success" ↔
    response.isSuccess ∧ arcResp.txStatus.getD "" ≠ "DOUBLE_SPEND_ATTEMPTED" ∧
      arcResp.txStatus.getD "" ≠ "SEEN_IN_ORPHAN_MEMPOOL" := by
  simp [primaryResult, isDoubleSpend, isOrphanMempool]

theorem queryRest_of_ne {named : String} {requested : String × Nat}
    (acc : String × List PostTxResultForTxid) (h : requested.1 ≠ named) :
    (queryRest named queries acc requested).2 = acc.2 ++ [entryFor queries requested] ∧
      ((queryRest named queries acc requested).1 = "success" ↔
        acc.1 = "success" ∧ (entryFor queries requested).status = "success") := by
  have hbeq : (requested.1 == named) = false := beq_false_of_ne h
  cases hdata : getTxData (queries requested.2) with
  | none => simp [queryRest, entryFor, hbeq, hdata, extraResult, PostTxResultForTxid.serviceFailure]
  | some data =>
    by_cases hcounts : data.txStatus = some "SEEN_ON_NETWORK" ∨ data.txStatus = some "STORED" <;>
      by_cases hacc : acc.1 = "success" <;>
        simp [queryRest, entryFor, hbeq, hdata, extraResult, hcounts, hacc]

theorem foldl_queryRest (named : String) (acc : String × List PostTxResultForTxid)
    (requests : List (String × Nat)) :
    (requests.foldl (queryRest named queries) acc).2 =
        acc.2 ++ (requests.filter (·.1 ≠ named)).map (entryFor queries) ∧
      ((requests.foldl (queryRest named queries) acc).1 = "success" ↔
        acc.1 = "success" ∧
          ∀ requested ∈ requests, requested.1 ≠ named → (entryFor queries requested).status = "success") := by
  induction requests generalizing acc with
  | nil => simp
  | cons requested requests ih =>
    rw [List.foldl_cons, (ih _).1, (ih _).2]
    by_cases hnamed : requested.1 = named
    · have hskip : queryRest named queries acc requested = acc := by simp [queryRest, hnamed]
      simp [hskip, hnamed]
    · rw [(queryRest_of_ne acc hnamed).1, (queryRest_of_ne acc hnamed).2]
      simp [hnamed, and_assoc]

/-- The entries of a report on a readable answer, and when it is a success. -/
theorem postBeef_of_answer (name : String) (hbody : response.body = .ok arcResp) :
    (postBeef name (.ok response) queries txids).txidResults = primaryResult response arcResp ::
        (txids.zipIdx.filter (·.1 ≠ arcResp.txid)).map (entryFor queries) ∧
      ((postBeef name (.ok response) queries txids).status = "success" ↔
        (primaryResult response arcResp).status = "success" ∧
          ∀ requested ∈ txids.zipIdx, requested.1 ≠ arcResp.txid →
            (entryFor queries requested).status = "success") := by
  have h := @foldl_queryRest queries arcResp.txid
    ((primaryResult response arcResp).status, [primaryResult response arcResp]) txids.zipIdx
  rw [postBeef]
  simp only [hbody]
  exact h

theorem primaryResult_refusals (h : (primaryResult response arcResp).status = "success") :
    arcResp.txStatus.getD "" ∈ refusals ↔ arcResp.txStatus = some "REJECTED" := by
  obtain ⟨-, hdouble, horphan⟩ := primaryResult_success.mp h
  cases hstatus : arcResp.txStatus with
  | none => decide
  | some txStatus =>
    rw [hstatus, Option.getD_some] at hdouble horphan
    simp [refusals, hdouble, horphan]

/-- The entries name the requested transactions when the answer names one of them. -/
theorem entries_perm_iff (hnodup : txids.Nodup) :
    ((primaryResult response arcResp ::
        (txids.zipIdx.filter (·.1 ≠ arcResp.txid)).map (entryFor queries)).map (·.txid)).Perm txids ↔
      arcResp.txid ∈ txids := by
  have hrest : ((txids.zipIdx.filter (·.1 ≠ arcResp.txid)).map (entryFor queries)).map (·.txid) =
      txids.erase arcResp.txid := by
    have hfirst : ((·.txid) ∘ entryFor queries) = Prod.fst := funext entryFor_txid
    rw [List.map_map, hfirst, hnodup.erase_eq_filter]
    conv_rhs => rw [← List.zipIdx_map_fst 0 txids, List.filter_map]
    exact congrArg (List.map Prod.fst) (List.filter_congr fun requested _ => by
      simp [bne, beq_eq_decide])
  rw [List.map_cons, hrest]
  constructor
  · exact fun h => h.mem_iff.mp List.mem_cons_self
  · exact fun h => (List.perm_cons_erase h).symm

theorem faithful_of_answered {name : String} (hbody : response.body = .ok arcResp)
    (hnodup : txids.Nodup) (h : Answered response arcResp queries txids) :
    FaithfulReport (Accepted (.ok response) queries txids) txids
      (postBeef name (.ok response) queries txids) := by
  obtain ⟨hentries, hstatus⟩ := @postBeef_of_answer queries _ _ txids name hbody
  refine .of_entries ?_ ?_ ?_
  · rw [hentries, entries_perm_iff hnodup]
    exact h.named
  · intro e he hsuccess
    rw [hentries] at he
    refine ⟨response, arcResp, rfl, hbody, ?_⟩
    obtain rfl | he := List.mem_cons.mp he
    · have hname : arcResp.txid = (primaryResult response arcResp).txid := rfl
      rw [if_pos hname, primaryResult_refusals hsuccess]
      have haccepted := (primaryResult_success.mp hsuccess).1
      exact ⟨haccepted, h.notRejected haccepted⟩
    · obtain ⟨⟨txid, i⟩, hmem, rfl⟩ := List.mem_map.mp he
      obtain ⟨hmem, hne⟩ := List.mem_filter.mp hmem
      have hne : txid ≠ arcResp.txid := of_decide_eq_true hne
      have hi := List.mem_zipIdx_iff_getElem?.mp hmem
      obtain ⟨data, hdata, hcounts⟩ := (entryFor_success _).mp hsuccess
      rw [entryFor_txid, if_neg (Ne.symm hne)]
      exact ⟨i, data, hi, hdata, hcounts, h.queried i txid data hi hne hdata hcounts⟩
  · rw [hstatus, hentries, List.forall_mem_cons, List.forall_mem_map]
    simp [List.mem_filter]

theorem answered_of_faithful {name : String} (hbody : response.body = .ok arcResp)
    (hnodup : txids.Nodup)
    (h : FaithfulReport (Accepted (.ok response) queries txids) txids
      (postBeef name (.ok response) queries txids)) : Answered response arcResp queries txids := by
  obtain ⟨hentries, -⟩ := @postBeef_of_answer queries _ _ txids name hbody
  have hacknowledged := h.acknowledged
  rw [hentries] at hacknowledged
  refine ⟨?_, ?_, ?_⟩
  · rw [← @entries_perm_iff queries response arcResp txids hnodup, ← hentries]
    exact h.entries
  · intro hsuccess hrejected
    have hprimary : (primaryResult response arcResp).status = "success" := by
      rw [primaryResult_success, hrejected]
      exact ⟨hsuccess, by decide, by decide⟩
    obtain ⟨response', arcResp', hanswer, hbody', haccepted⟩ :=
      hacknowledged _ List.mem_cons_self hprimary
    cases hanswer
    cases hbody.symm.trans hbody'
    rw [if_pos (by rfl)] at haccepted
    exact haccepted.2 ((primaryResult_refusals hprimary).mpr hrejected)
  · intro i txid data hi hne hdata hcounts
    have hmem : entryFor queries (txid, i) ∈
        (txids.zipIdx.filter (·.1 ≠ arcResp.txid)).map (entryFor queries) :=
      List.mem_map_of_mem (List.mem_filter.mpr
        ⟨List.mem_zipIdx_iff_getElem?.mpr hi, decide_eq_true hne⟩)
    obtain ⟨response', arcResp', hanswer, hbody', haccepted⟩ :=
      hacknowledged _ (List.mem_cons_of_mem _ hmem) ((entryFor_success _).mpr ⟨data, hdata, hcounts⟩)
    cases hanswer
    cases hbody.symm.trans hbody'
    rw [entryFor_txid, if_neg (Ne.symm hne)] at haccepted
    obtain ⟨j, data', hj, hdata', -, hnames⟩ := haccepted
    -- a requested transaction has one position
    obtain rfl : i = j := (List.getElem?_inj (List.getElem?_eq_some_iff.mp hi).1 hnodup).mp
      (hi.trans hj.symm)
    cases hdata.symm.trans hdata'
    exact hnames

theorem faithful_iff (name : String) (answer : HttpAnswer ArcResponse) (hnodup : txids.Nodup) :
    FaithfulReport (Accepted answer queries txids) txids (postBeef name answer queries txids) ↔
      Requested answer queries txids := by
  cases answer with
  | error e => exact faithful_allFailed
  | ok response =>
    cases hbody : response.body with
    | error e =>
      have hfailed : postBeef name (.ok response) queries txids =
          .allFailed name s!"HTTP {response.statusText} - parse error: {e}" txids := by
        simp only [postBeef, hbody]
      rw [hfailed, faithful_allFailed]
      simp only [Requested, hbody]
    | ok arcResp =>
      simp only [Requested, hbody]
      exact ⟨answered_of_faithful hbody hnodup, faithful_of_answered hbody hnodup⟩

end Arc

/-! ## Arcade -/

namespace Arcade

/-- An answer to a post names the transaction with a 2xx status and does not refuse it. -/
def Accepted (sdk : ArcadeSdk) (answers : Nat → HttpAnswer ArcadeResponse) (beef : Bytes)
    (txids : List String) (txid : String) : Prop :=
  ∃ parsed i requested response body, sdk.parseBeef beef = .ok parsed ∧
    txids[i]? = some requested ∧ (prepare sdk parsed txids requested).efHex.isSome ∧
    answers i = .ok response ∧ response.body = .ok body ∧ body.txid = txid ∧ response.isSuccess ∧
    body.txStatus ∉ refusals

/-- The txid that an answer names; an answer that cannot be read is about the requested one. -/
def namedBy (answer : HttpAnswer ArcadeResponse) (requested : String) : String :=
  match answer with
  | .ok response =>
    match response.body with
    | .ok body => body.txid
    | .error _ => requested
  | .error _ => requested

/-- The txid that the entry of a position is about. -/
def nameFor (sdk : ArcadeSdk) (answers : Nat → HttpAnswer ArcadeResponse) (parsed : Beef)
    (txids : List String) (requested : String × Nat) : String :=
  if (prepare sdk parsed txids requested.1).efHex.isSome then
    namedBy (answers requested.2) requested.1
  else requested.1

/-- The answers name the requested transactions, in any order, and reject none with a 2xx status. -/
structure Answered (sdk : ArcadeSdk) (answers : Nat → HttpAnswer ArcadeResponse) (parsed : Beef)
    (txids : List String) : Prop where
  named : (txids.zipIdx.map (nameFor sdk answers parsed txids)).Perm txids
  notRejected : ∀ i requested response body, txids[i]? = some requested →
    (prepare sdk parsed txids requested).efHex.isSome → answers i = .ok response →
      response.body = .ok body → response.isSuccess → body.txStatus ≠ "REJECTED"

/-- What the answers are when the report is faithful. -/
def Requested (sdk : ArcadeSdk) (answers : Nat → HttpAnswer ArcadeResponse) (beef : Bytes)
    (txids : List String) : Prop :=
  match sdk.parseBeef beef with
  | .error _ => txids ≠ []
  | .ok parsed => Answered sdk answers parsed txids

/-- The entry of a position. -/
def entryFor (sdk : ArcadeSdk) (answers : Nat → HttpAnswer ArcadeResponse) (parsed : Beef)
    (txids : List String) (requested : String × Nat) : PostTxResultForTxid :=
  txResult answers requested.2 (prepare sdk parsed txids requested.1)

variable {sdk : ArcadeSdk} {answers : Nat → HttpAnswer ArcadeResponse} {parsed : Beef}
  {txids : List String}

theorem postEf_txid (txid : String) (answer : HttpAnswer ArcadeResponse) :
    (postEf txid answer).txid = namedBy answer txid := by
  cases answer with
  | error e => rfl
  | ok response =>
    cases hbody : response.body <;>
      simp only [postEf, namedBy, hbody, PostTxResultForTxid.serviceFailure]

theorem entryFor_txid (requested : String × Nat) :
    (entryFor sdk answers parsed txids requested).txid =
      nameFor sdk answers parsed txids requested := by
  unfold entryFor txResult nameFor
  cases hef : (prepare sdk parsed txids requested.1).efHex with
  | none => rfl
  | some ef => exact postEf_txid _ _

theorem postEf_status (txid : String) (answer : HttpAnswer ArcadeResponse) :
    (postEf txid answer).status = "success" ∨ (postEf txid answer).status = "error" := by
  cases answer with
  | error e => exact Or.inr rfl
  | ok response =>
    cases hbody : response.body with
    | error e => simp [postEf, hbody, PostTxResultForTxid.serviceFailure]
    | ok body =>
      simp only [postEf, hbody]
      split
      · exact Or.inl rfl
      · exact Or.inr rfl

theorem entryFor_status (requested : String × Nat) :
    (entryFor sdk answers parsed txids requested).status = "success" ∨
      (entryFor sdk answers parsed txids requested).status = "error" := by
  unfold entryFor txResult
  split
  · exact postEf_status _ _
  · exact Or.inr rfl

theorem postEf_success (txid : String) (answer : HttpAnswer ArcadeResponse) :
    (postEf txid answer).status = "success" ↔ ∃ response body, answer = .ok response ∧
      response.body = .ok body ∧ response.isSuccess ∧
        body.txStatus ≠ "DOUBLE_SPEND_ATTEMPTED" ∧ body.txStatus ≠ "SEEN_IN_ORPHAN_MEMPOOL" := by
  cases answer with
  | error e => simp [postEf, PostTxResultForTxid.serviceFailure]
  | ok response =>
    cases hbody : response.body with
    | error e => simp [postEf, hbody, PostTxResultForTxid.serviceFailure]
    | ok body => simp [postEf, hbody, and_assoc]

theorem entryFor_success (requested : String × Nat) :
    (entryFor sdk answers parsed txids requested).status = "success" ↔
      (prepare sdk parsed txids requested.1).efHex.isSome ∧
        ∃ response body, answers requested.2 = .ok response ∧ response.body = .ok body ∧
          response.isSuccess ∧
            body.txStatus ≠ "DOUBLE_SPEND_ATTEMPTED" ∧ body.txStatus ≠ "SEEN_IN_ORPHAN_MEMPOOL" := by
  unfold entryFor txResult
  cases hef : (prepare sdk parsed txids requested.1).efHex with
  | none => simp [PostTxResultForTxid.serviceFailure]
  | some ef =>
    dsimp only
    rw [postEf_success]
    exact (and_iff_right rfl).symm

theorem report_success {results : List PostTxResultForTxid}
    (h : ∀ e ∈ results, e.status = "success" ∨ e.status = "error") :
    (report parsed results).status = "success" ↔ ∀ e ∈ results, e.status = "success" := by
  cases hfind : results.find? (·.status == "error") with
  | none =>
    simp only [report, hfind]
    refine iff_of_true trivial fun e he => (h e he).resolve_right fun herror => ?_
    have hnone := List.find?_eq_none.mp hfind e he
    simp [herror] at hnone
  | some failed =>
    simp only [report, hfind]
    refine iff_of_false (by decide) fun hall => ?_
    have hfailed := hall failed (List.mem_of_find?_eq_some hfind)
    have herror := List.find?_some hfind
    rw [hfailed] at herror
    exact absurd herror (by decide)

theorem faithful_of_answered {beef : Bytes} (hparse : sdk.parseBeef beef = .ok parsed)
    (h : Answered sdk answers parsed txids) :
    FaithfulReport (Accepted sdk answers beef txids) txids
      (report parsed (txids.zipIdx.map (entryFor sdk answers parsed txids))) := by
  refine .of_entries ?_ ?_ ?_
  · have hnames : ((·.txid) ∘ entryFor sdk answers parsed txids) =
        nameFor sdk answers parsed txids := funext entryFor_txid
    rw [report_txidResults, List.map_map, hnames]
    exact h.named
  · intro e he hsuccess
    rw [report_txidResults] at he
    obtain ⟨⟨requested, i⟩, hmem, rfl⟩ := List.mem_map.mp he
    have hi := List.mem_zipIdx_iff_getElem?.mp hmem
    obtain ⟨hef, response, body, hanswer, hbody, haccepted, hdouble, horphan⟩ :=
      entryFor_success _ |>.mp hsuccess
    have hrejected := h.notRejected i requested response body hi hef hanswer hbody haccepted
    refine ⟨parsed, i, requested, response, body, hparse, hi, hef, hanswer, hbody, ?_, haccepted, ?_⟩
    · rw [entryFor_txid, nameFor, if_pos hef]
      simp only [namedBy, hanswer, hbody]
    · simp [refusals, hdouble, horphan, hrejected]
  · rw [report_txidResults]
    refine report_success fun e he => ?_
    obtain ⟨requested, -, rfl⟩ := List.mem_map.mp he
    exact entryFor_status requested

theorem answered_of_faithful {beef : Bytes} (hparse : sdk.parseBeef beef = .ok parsed)
    (hnodup : txids.Nodup)
    (h : FaithfulReport (Accepted sdk answers beef txids) txids
      (report parsed (txids.zipIdx.map (entryFor sdk answers parsed txids)))) :
    Answered sdk answers parsed txids := by
  have hnames : ((·.txid) ∘ entryFor sdk answers parsed txids) =
      nameFor sdk answers parsed txids := funext entryFor_txid
  have hnamed := h.entries
  have hacknowledged := h.acknowledged
  rw [report_txidResults] at hnamed hacknowledged
  rw [List.map_map, hnames] at hnamed
  refine ⟨hnamed, ?_⟩
  intro i requested response body hi hef hanswer hbody haccepted hrejected
  have hmem : (requested, i) ∈ txids.zipIdx := List.mem_zipIdx_iff_getElem?.mpr hi
  have hsuccess : (entryFor sdk answers parsed txids (requested, i)).status = "success" := by
    rw [entryFor_success]
    refine ⟨hef, response, body, hanswer, hbody, haccepted, ?_, ?_⟩ <;> rw [hrejected] <;> decide
  obtain ⟨parsed', j, requested', response', body', hparse', hj, hef', hanswer', hbody', hname', -,
    hrefusal⟩ := hacknowledged _ (List.mem_map_of_mem hmem) hsuccess
  cases hparse.symm.trans hparse'
  -- both positions have the name of this entry, and no two positions have the same name
  have hnameAt : ∀ {k r resp b}, txids[k]? = some r →
      (prepare sdk parsed txids r).efHex.isSome → answers k = .ok resp → resp.body = .ok b →
        (txids.zipIdx.map (nameFor sdk answers parsed txids))[k]? = some b.txid := by
    intro k r resp b hk hefk hanswerk hbodyk
    rw [List.getElem?_map, List.getElem?_zipIdx, hk]
    simp only [Option.map_some, Nat.zero_add, nameFor, if_pos hefk, namedBy, hanswerk, hbodyk]
  have hsame : body.txid = body'.txid := by
    rw [hname', entryFor_txid, nameFor, if_pos hef]
    simp only [namedBy, hanswer, hbody]
  have hat := hnameAt hi hef hanswer hbody
  have hat' := hnameAt hj hef' hanswer' hbody'
  rw [← hsame] at hat'
  obtain rfl := (List.getElem?_inj (List.getElem?_eq_some_iff.mp hat).1
    (hnamed.nodup_iff.mpr hnodup)).mp (hat.trans hat'.symm)
  cases hanswer.symm.trans hanswer'
  cases hbody.symm.trans hbody'
  exact hrefusal (by rw [hrejected]; decide)

theorem faithful_iff (answers : Nat → HttpAnswer ArcadeResponse) (beef : Bytes)
    (hnodup : txids.Nodup) : ∃ r, postBeef sdk answers beef txids = some r ∧
      (FaithfulReport (Accepted sdk answers beef txids) txids r ↔
        Requested sdk answers beef txids) := by
  cases hparse : sdk.parseBeef beef with
  | error e =>
    refine ⟨.allFailed "ArcadeBeef" s!"Failed to parse BEEF: {e}" txids, ?_, ?_⟩
    · simp only [postBeef, hparse]
    · simp only [faithful_allFailed, Requested, hparse]
  | ok parsed =>
    obtain ⟨groups, hgroups⟩ := @schedule_ends sdk parsed txids
    refine ⟨report parsed (txids.zipIdx.map (entryFor sdk answers parsed txids)), ?_, ?_⟩
    · simp only [postBeef, hparse, hgroups, Option.map_some, collectResults_eq hgroups]
      rfl
    · simp only [Requested, hparse]
      exact ⟨answered_of_faithful hparse hnodup, faithful_of_answered hparse⟩

end Arcade

/-! ## Bitails -/

namespace Bitails

/-- An entry of the answer accepts its transaction, or knows it. -/
def Accepts (entry : PostRawsEntry) : Prop :=
  entry.errorCode = none ∨ entry.errorCode = some (-27)

/-- An entry of a 2xx answer is about the transaction and accepts it. -/
def Accepted (sdk : HashSdk) (answer : HttpAnswer (List PostRawsEntry)) (beef : Bytes)
    (txid : String) : Prop :=
  ∃ parsed response entries, sdk.parseBeef beef = .ok parsed ∧ answer = .ok response ∧
    response.isSuccess ∧ response.body = .ok entries ∧
      ∃ answered ∈ entries.zipIdx, namedTxid (rawTxids sdk parsed) answered = txid ∧
        Accepts answered.1

/-- The answer to the post is a failure, or it can be read, has an entry for each posted transaction
and names every requested one. -/
def Requested (sdk : HashSdk) (answer : HttpAnswer (List PostRawsEntry)) (beef : Bytes)
    (txids : List String) : Prop :=
  match sdk.parseBeef beef with
  | .error _ => txids ≠ []
  | .ok parsed => rawTxids sdk parsed ≠ [] ∧
    match answer with
    | .error _ => txids ≠ []
    | .ok response =>
      if response.isSuccess then
        ∃ entries, response.body = .ok entries ∧
          entries.length = (rawTxids sdk parsed).length ∧
            ∀ txid ∈ txids, ∃ answered ∈ entries.zipIdx,
              namedTxid (rawTxids sdk parsed) answered = txid
      else txids ≠ []

variable {sdk : HashSdk} {parsed : Beef} {txids raw : List String}

theorem judge_txid (entry : PostRawsEntry) (r : PostTxResultForTxid) :
    (judge entry r).txid = r.txid := by
  unfold judge
  split
  · split_ifs <;> rfl
  · rfl

theorem judge_success (entry : PostRawsEntry) (r : PostTxResultForTxid) :
    (judge entry r).status = "success" ↔ r.status = "success" ∧ Accepts entry := by
  unfold judge Accepts
  cases hcode : entry.errorCode with
  | none => simp
  | some code =>
    by_cases hknown : code = -27
    · simp [hknown]
    · by_cases hspent : code = -25 <;> simp [hknown, hspent]

/-- What the loop makes of one result. -/
def settled (raw : List String) (r : PostTxResultForTxid) (answered : PostRawsEntry × Nat) :
    PostTxResultForTxid :=
  if r.txid = namedTxid raw answered then judge answered.1 r else r

theorem settled_txid (r : PostTxResultForTxid) (answered : PostRawsEntry × Nat) :
    (settled raw r answered).txid = r.txid := by
  unfold settled
  split
  · exact judge_txid _ _
  · rfl

/-- A txid has one result, so the first one is the only one. -/
theorem modifyFirst_eq_map {txid : String} {f : PostTxResultForTxid → PostTxResultForTxid}
    {results : List PostTxResultForTxid} (h : (results.map (·.txid)).Nodup) :
    modifyFirst txid f results = results.map fun r => if r.txid = txid then f r else r := by
  induction results with
  | nil => rfl
  | cons r results ih =>
    obtain ⟨hr, hresults⟩ := List.nodup_cons.mp h
    rw [modifyFirst, List.map_cons]
    by_cases htxid : r.txid = txid
    · have hrest : ∀ r' ∈ results, (if r'.txid = txid then f r' else r') = id r' := by
        intro r' hr'
        have hne : r'.txid ≠ txid := fun heq => hr (List.mem_map.mpr ⟨r', hr', heq.trans htxid.symm⟩)
        exact if_neg hne
      rw [if_pos (beq_iff_eq.mpr htxid), if_pos htxid, List.map_congr_left hrest, List.map_id]
    · rw [if_neg (by simpa using htxid), if_neg htxid, ih hresults]

theorem foldl_settle {results : List PostTxResultForTxid} (h : (results.map (·.txid)).Nodup)
    (answers : List (PostRawsEntry × Nat)) :
    answers.foldl (settle raw) results = results.map fun r => answers.foldl (settled raw) r := by
  induction answers generalizing results with
  | nil => simp
  | cons answered answers ih =>
    have hstep : settle raw results answered = results.map (settled raw · answered) :=
      modifyFirst_eq_map h
    have hkeys : ((·.txid) ∘ (settled raw · answered)) = (·.txid) :=
      funext fun r => settled_txid r answered
    have hnodup : ((results.map (settled raw · answered)).map (·.txid)).Nodup := by
      rwa [List.map_map, hkeys]
    rw [List.foldl_cons, hstep, ih hnodup, List.map_map]
    rfl

theorem foldl_settled_txid (r : PostTxResultForTxid) (answers : List (PostRawsEntry × Nat)) :
    (answers.foldl (settled raw) r).txid = r.txid := by
  induction answers generalizing r with
  | nil => rfl
  | cons answered answers ih => rw [List.foldl_cons, ih, settled_txid]

theorem foldl_settled_success (r : PostTxResultForTxid) (answers : List (PostRawsEntry × Nat)) :
    (answers.foldl (settled raw) r).status = "success" ↔ r.status = "success" ∧
      ∀ answered ∈ answers, namedTxid raw answered = r.txid → Accepts answered.1 := by
  induction answers generalizing r with
  | nil => simp
  | cons answered answers ih =>
    rw [List.foldl_cons, ih, settled_txid, List.forall_mem_cons, settled]
    by_cases hnamed : r.txid = namedTxid raw answered
    · rw [if_pos hnamed, judge_success, and_assoc]
      simp [hnamed]
    · simp [hnamed, Ne.symm hnamed]

/-- The result that a requested transaction starts with. -/
def optimistic (txid : String) : PostTxResultForTxid :=
  { txid, status := "success" }

/-- A report that leaves the first results and fails is not faithful. -/
theorem not_faithful_optimistic {accepted : String → Prop} {name : String} {error : Option String} :
    ¬FaithfulReport accepted txids
      { name, status := "error", error, txidResults := txids.map optimistic } := by
  intro h
  refine absurd (h.overall.mpr fun e he => ?_) (by decide : "error" ≠ "success")
  obtain ⟨txid, -, rfl⟩ := List.mem_map.mp he
  rfl

/-- The report on an answer with as many entries as posted transactions. -/
def settledReport (sdk : HashSdk) (parsed : Beef) (entries : List PostRawsEntry)
    (txids : List String) : PostBeefResult :=
  let txidResults := txids.map fun txid =>
    entries.zipIdx.foldl (settled (rawTxids sdk parsed)) (optimistic txid)
  { name := "Bitails", txidResults
    status := if txidResults.any (·.status != "success") then "error" else "success" }

theorem postBeef_of_entries {answer : HttpAnswer (List PostRawsEntry)} {beef : Bytes}
    {response : HttpResponse (List PostRawsEntry)} {entries : List PostRawsEntry}
    (hparse : sdk.parseBeef beef = .ok parsed) (hraw : rawTxids sdk parsed ≠ [])
    (hanswer : answer = .ok response) (hsuccess : response.isSuccess)
    (hbody : response.body = .ok entries) (hlength : entries.length = (rawTxids sdk parsed).length)
    (hnodup : txids.Nodup) :
    postBeef sdk answer beef txids = settledReport sdk parsed entries txids := by
  have hkeys : ((txids.map optimistic).map (·.txid)).Nodup := by
    rwa [List.map_map, show (·.txid) ∘ optimistic = id from rfl, List.map_id]
  have hempty : (rawTxids sdk parsed).isEmpty = false := by simpa using hraw
  have hfold := @foldl_settle (rawTxids sdk parsed) _ hkeys entries.zipIdx
  rw [List.map_map] at hfold
  have hresults : entries.zipIdx.foldl (settle (rawTxids sdk parsed))
      (txids.map fun txid => { txid, status := "success" }) = txids.map fun txid =>
        entries.zipIdx.foldl (settled (rawTxids sdk parsed)) (optimistic txid) := hfold
  simp only [postBeef, hparse, hempty, hanswer, hsuccess, hbody, hlength, hresults, settledReport,
    Bool.false_eq_true, if_false, Bool.not_true, ne_eq, not_true_eq_false]

theorem mem_settledReport {entries : List PostRawsEntry} {e : PostTxResultForTxid} :
    e ∈ (settledReport sdk parsed entries txids).txidResults ↔ ∃ txid ∈ txids,
      entries.zipIdx.foldl (settled (rawTxids sdk parsed)) (optimistic txid) = e :=
  List.mem_map

theorem faithful_settledReport {answer : HttpAnswer (List PostRawsEntry)} {beef : Bytes}
    {response : HttpResponse (List PostRawsEntry)} {entries : List PostRawsEntry}
    (hparse : sdk.parseBeef beef = .ok parsed) (hanswer : answer = .ok response)
    (hsuccess : response.isSuccess) (hbody : response.body = .ok entries) :
    FaithfulReport (Accepted sdk answer beef) txids (settledReport sdk parsed entries txids) ↔
      ∀ txid ∈ txids, ∃ answered ∈ entries.zipIdx,
        namedTxid (rawTxids sdk parsed) answered = txid := by
  have hstatus : ∀ txid, (entries.zipIdx.foldl (settled (rawTxids sdk parsed))
      (optimistic txid)).status = "success" ↔ ∀ answered ∈ entries.zipIdx,
        namedTxid (rawTxids sdk parsed) answered = txid → Accepts answered.1 :=
    fun txid => (foldl_settled_success _ _).trans (and_iff_right rfl)
  constructor
  · intro h txid htxid
    by_contra hnone
    push Not at hnone
    -- without an entry about it the result stays the success that it started as
    have hkept := (hstatus txid).mpr fun answered hmem hnamed => absurd hnamed (hnone answered hmem)
    obtain ⟨parsed', response', entries', hparse', hanswer', -, hbody', answered, hmem, hnamed, -⟩ :=
      h.acknowledged _ (mem_settledReport.mpr ⟨txid, htxid, rfl⟩) hkept
    cases hparse.symm.trans hparse'
    cases hanswer.symm.trans hanswer'
    cases hbody.symm.trans hbody'
    rw [foldl_settled_txid] at hnamed
    exact hnone answered hmem hnamed
  · intro hnamed
    refine .of_entries ?_ ?_ ?_
    · have hkeys : ((·.txid) ∘ fun txid =>
          entries.zipIdx.foldl (settled (rawTxids sdk parsed)) (optimistic txid)) = id :=
        funext fun txid => foldl_settled_txid _ _
      rw [settledReport, List.map_map, hkeys, List.map_id]
    · intro e he hentry
      obtain ⟨txid, htxid, rfl⟩ := mem_settledReport.mp he
      obtain ⟨answered, hmem, hname⟩ := hnamed txid htxid
      refine ⟨parsed, response, entries, hparse, hanswer, hsuccess, hbody, answered, hmem, ?_,
        (hstatus txid).mp hentry answered hmem hname⟩
      rw [foldl_settled_txid]
      exact hname
    · simp [settledReport]

theorem faithful_iff (answer : HttpAnswer (List PostRawsEntry)) (beef : Bytes)
    (hnodup : txids.Nodup) :
    FaithfulReport (Accepted sdk answer beef) txids (postBeef sdk answer beef txids) ↔
      Requested sdk answer beef txids := by
  cases hparse : sdk.parseBeef beef with
  | error e => simp only [postBeef, Requested, hparse, faithful_allFailed]
  | ok parsed =>
    simp only [Requested, hparse]
    by_cases hraw : rawTxids sdk parsed = []
    · refine iff_of_false ?_ fun h => h.1 hraw
      simp only [postBeef, hparse, hraw, List.isEmpty_nil, if_true]
      exact not_faithful_optimistic
    have hempty : (rawTxids sdk parsed).isEmpty = false := by simpa using hraw
    rw [and_iff_right hraw]
    cases hanswer : answer with
    | error e =>
      simp only [postBeef, hparse, hempty, Bool.false_eq_true, if_false, faithful_allFailed]
    | ok response =>
      dsimp only
      by_cases hsuccess : response.isSuccess
      · rw [if_pos hsuccess]
        cases hbody : response.body with
        | error e =>
          refine iff_of_false ?_ (by rintro ⟨_, ⟨⟩, _⟩)
          simp only [postBeef, hparse, hempty, hsuccess, hbody, Bool.false_eq_true, if_false,
            Bool.not_true]
          exact not_faithful_optimistic
        | ok entries =>
          by_cases hlength : entries.length = (rawTxids sdk parsed).length
          · rw [postBeef_of_entries hparse hraw rfl hsuccess hbody hlength hnodup,
              faithful_settledReport hparse rfl hsuccess hbody]
            constructor
            · exact fun h => ⟨entries, rfl, hlength, h⟩
            · rintro ⟨entries', heq, -, h⟩
              cases heq
              exact h
          · refine iff_of_false ?_ ?_
            · simp only [postBeef, hparse, hempty, hsuccess, hbody, hlength, Bool.false_eq_true,
                if_false, Bool.not_true, ne_eq, not_false_eq_true, if_true]
              exact not_faithful_optimistic
            · rintro ⟨entries', heq, hlength', -⟩
              cases heq
              exact hlength hlength'
      · rw [if_neg hsuccess]
        simp only [postBeef, hparse, hempty, hsuccess, Bool.false_eq_true, if_false, Bool.not_false,
          if_true, faithful_allFailed]

end Bitails

/-- For different requested transactions the reports of the four providers are faithful when the
answers are as `Requested` says, and only then. -/
theorem broadcast_reports_faithful_iff (beef : Bytes) (txids : List String)
    (hnodup : txids.Nodup) :
    (∀ name answer queries, FaithfulReport (Arc.Accepted answer queries txids) txids
        (Arc.postBeef name answer queries txids) ↔ Arc.Requested answer queries txids) ∧
      (∀ sdk answers, ∃ r, Arcade.postBeef sdk answers beef txids = some r ∧
        (FaithfulReport (Arcade.Accepted sdk answers beef txids) txids r ↔
          Arcade.Requested sdk answers beef txids)) ∧
      (∀ sdk answer, FaithfulReport (Bitails.Accepted sdk answer beef) txids
        (Bitails.postBeef sdk answer beef txids) ↔ Bitails.Requested sdk answer beef txids) ∧
      ∀ sdk answers, FaithfulReport (WhatsOnChain.Accepted sdk answers beef txids) txids
        (WhatsOnChain.postBeef sdk answers beef txids) ↔ WhatsOnChain.Requested sdk beef txids :=
  ⟨fun name answer _ => Arc.faithful_iff name answer hnodup,
    fun _ answers => Arcade.faithful_iff answers beef hnodup,
    fun _ answer => Bitails.faithful_iff answer beef hnodup,
    fun _ _ => WhatsOnChain.faithful_iff⟩

/-- The SDK with a hash that names every raw transaction alike. -/
def hashSdk : HashSdk :=
  { Sample.sdk with sha256d := fun _ => [1] }

/-- A 2xx answer of Bitails without a readable body. -/
def unreadable : HttpAnswer (List Bitails.PostRawsEntry) :=
  .ok { status := 200, statusText := "200 OK", body := .error "expected value" }

/-- ARC names the requested transaction: its report is faithful. -/
theorem broadcast_reports_faithful_arc : FaithfulReport
    (Arc.Accepted (.ok { status := 200, statusText := "200 OK", body := .ok { txid := "a" } })
      (fun _ => .error "refused") ["a"]) ["a"]
    (Arc.postBeef "arc" (.ok { status := 200, statusText := "200 OK", body := .ok { txid := "a" } })
      (fun _ => .error "refused") ["a"]) := by
  refine ((broadcast_reports_faithful_iff [] ["a"] (by decide)).1 _ _ _).mpr ⟨?_, ?_, ?_⟩
  · decide
  · decide
  · intro i txid data hi hne
    exact absurd (List.mem_singleton.mp (List.mem_of_getElem? hi)) hne

/-- Bitails does not say what became of the transaction, and the signer takes it for sent. -/
theorem broadcast_report_not_faithful :
    ¬∀ (sdk : HashSdk) (answer : HttpAnswer (List Bitails.PostRawsEntry)) (beef : Bytes)
      (txids : List String), txids.Nodup → FaithfulReport (Bitails.Accepted sdk answer beef) txids
        (Bitails.postBeef sdk answer beef txids) := by
  intro h
  have hfaithful := h hashSdk unreadable Sample.fundingSource [Sample.fundingTxid] (by decide +kernel)
  have hclassified : classifyBroadcastResults
      [Bitails.postBeef hashSdk unreadable Sample.fundingSource [Sample.fundingTxid]] = .success := by
    have hverdict : signerVerdict
        [Bitails.postBeef hashSdk unreadable Sample.fundingSource [Sample.fundingTxid]] = .success := by
      decide +kernel
    unfold signerVerdict at hverdict
    generalize classifyBroadcastResults _ = outcome at hverdict ⊢
    cases outcome
    · rfl
    all_goals cases hverdict
  obtain ⟨_, _, _, -, hanswer, -, hbody, -⟩ := hfaithful.classified _ rfl hclassified
  cases hanswer
  cases hbody

end WalletToolbox
