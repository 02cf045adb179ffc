import WalletToolbox.Laws.Unfail
import WalletToolbox.Sample

/-! # A run of TaskUnFail

Each request of a page leaves the query when it is reviewed, so the next page begins one page too
late: a run reviews every marked request if and only if one page holds them all. -/

namespace WalletToolbox.Monitor

open WalletToolbox.Lib WalletToolbox.Storage
open WalletToolbox.Lib.Prog hiding pure exec

variable {sdk : Sdk} {services : Services} {d : Tables} {s : Store} {E : Store → Prop}

/-! ## The requests in a review -/

/-- The status that a reviewed request gets. -/
def reviewedStatus (services : Services) (req : ProvenTxReq) : ProvenTxReqStatus :=
  if (services.getMerklePath req.txid).merklePath.isSome then .unmined else .invalid

/-- What a review does to transactions and outputs leaves the requests. -/
theorem provenTxReqs_bringBack (rawTx : Bytes) (id : Nat) :
    (bringBack sdk services rawTx d id).provenTxReqs = d.provenTxReqs := by
  have hclaims : ∀ (userId : Option Nat) (inputs : List TxInput) (d : Tables),
      (inputs.foldl (reclaim userId id) d).provenTxReqs = d.provenTxReqs := by
    intro userId inputs
    induction inputs with
    | nil => exact fun _ => rfl
    | cons input inputs ih =>
      intro d
      rw [List.foldl_cons, ih]
      unfold reclaim
      split
      · rfl
      · split <;> rfl
  unfold bringBack
  simp only
  split
  · rfl
  · split
    · rfl
    · exact hclaims _ _ _

/-- Of the requests a review writes its own only. -/
theorem provenTxReqs_unfailEffect (req : ProvenTxReq) :
    (unfailEffect sdk services d req).provenTxReqs =
      ((Stmt.updateProvenTxReq req.provenTxReqId { status := some (reviewedStatus services req) }).apply
        d).2.provenTxReqs := by
  have hback : ∀ (ids : List Nat) (d : Tables),
      (ids.foldl (bringBack sdk services req.rawTx) d).provenTxReqs = d.provenTxReqs := by
    intro ids
    induction ids with
    | nil => exact fun _ => rfl
    | cons id ids ih => exact fun d => (ih _).trans (provenTxReqs_bringBack req.rawTx id)
  unfold unfailEffect reviewedStatus
  split
  · exact hback _ _
  · rfl

/-- A reviewed request is no longer selected, and the others stay where they are. -/
theorem unfailing_unfailEffect (req : ProvenTxReq) :
    unfailing (unfailEffect sdk services d req) =
      (unfailing d).filter fun r => !(r.provenTxReqId == req.provenTxReqId) := by
  rw [unfailing, provenTxReqs_unfailEffect]
  refine @Table.find_update_leaving _ _ d.provenTxReqs _ (·.status == .unfail)
    (ProvenTxReqPartial.apply { status := some (reviewedStatus services req) } d.now) (fun _ => rfl)
    fun r => ?_
  show (reviewedStatus services req == ProvenTxReqStatus.unfail) = false
  unfold reviewedStatus
  split <;> rfl

theorem unfailing_page (page : List ProvenTxReq) :
    unfailing (page.foldl (unfailEffect sdk services) d) =
      (unfailing d).filter fun r => !(page.map (·.provenTxReqId)).contains r.provenTxReqId := by
  induction page generalizing d with
  | nil => simp
  | cons req page ih =>
    rw [List.foldl_cons, ih, unfailing_unfailEffect, List.filter_filter]
    refine List.filter_congr fun r _ => ?_
    rw [List.map_cons, List.contains_cons, Bool.not_or, Bool.and_comm]

theorem drains_unfail (sdk : Sdk) (services : Services) :
    Drains unfailing (fun d page => page.foldl (unfailEffect sdk services) d) fun _ => true :=
  drains_of_removed (fun d => Table.nodup_key_find d.provenTxReqs (·.status == .unfail))
    fun _ page => unfailing_page page

/-! ## The run -/

theorem wp_unfail {reqs : List ProvenTxReq} {Q : Unit → Store → Prop}
    (h : ∀ s' : Store, s'.toTables = reqs.foldl (unfailEffect sdk services) s.toTables → Q () s') :
    wp Stmt.exec (unfail sdk services reqs) Q E s :=
  wp_forM_effect (fun _ _ _ hQ => wp_unfailReq fun s' hs' => hQ s' hs') h

/-- A run ends; it looks up what its pages hold, and just these requests are no longer marked. -/
theorem runUnfail_seen (sdk : Sdk) (services : Services) (s : Store) :
    ∃ s', (runUnfail sdk services).run Stmt.exec s =
        (.ok (seen 100 (fun _ => true) (unfailing s.toTables)), s') ∧
      (unfailing s'.toTables).length + (seen 100 (fun _ => true) (unfailing s.toTables)).length =
        (unfailing s.toTables).length := by
  have hdrains := drains_unfail sdk services
  have hfuel : ((unfailing s.toTables).drop 0).length < s.provenTxReqs.rows.length + 1 :=
    Nat.lt_succ_of_le (List.length_filter_le _ _)
  have hwp : wp Stmt.exec (runUnfail sdk services) (fun looked s' =>
      looked = seen 100 (fun _ => true) (unfailing s.toTables) ∧
      (unfailing s'.toTables).length + (seen 100 (fun _ => true) (unfailing s.toTables)).length =
        (unfailing s.toTables).length) (fun _ => False) s := by
    unfold runUnfail
    rw [wp_bind, wp_ask]
    refine wp_sweep Store.toTables (by decide : 0 < 100) (fun _ => rfl)
      (fun page s Q hQ => wp_unfail hQ) fun s' hs' => ?_
    have hseen := swept_seen (by decide : 0 < 100) hdrains hfuel
    have hleft := @length_swept _ _ 100 _ _ _ hdrains (s.provenTxReqs.rows.length + 1) 0 s.toTables
    rw [List.drop_zero] at hseen
    rw [hseen, List.countP_true] at hleft
    rw [hs']
    exact ⟨hseen, hleft⟩
  obtain ⟨_, s', hrun, rfl, hleft⟩ := wp_total hwp
  exact ⟨s', hrun, hleft⟩

/-- Each marked request was looked up once, and none is marked any more. -/
def ReviewsAll (d d' : Tables) (looked : List ProvenTxReq) : Prop :=
  (∀ r ∈ unfailing d, (looked.map (·.txid)).count r.txid = 1) ∧ unfailing d' = []

/-- A run reviews all marked requests exactly when they fit on one page. -/
theorem runUnfail_reviewsAll_iff (sdk : Sdk) (services : Services) (s : Store) :
    ∃ looked s', (runUnfail sdk services).run Stmt.exec s = (.ok looked, s') ∧
      (ReviewsAll s.toTables s'.toTables looked ↔ (unfailing s.toTables).length ≤ 100) := by
  obtain ⟨s', hrun, hleft⟩ := runUnfail_seen sdk services s
  refine ⟨_, s', hrun, ?_⟩
  have hperm := seen_append_passedOver_perm 100 (fun _ => true) (unfailing s.toTables)
  have hlength := hperm.length_eq
  rw [List.length_append] at hlength
  rw [← passedOver_all_iff (by decide : 0 < 100)]
  constructor
  · rintro ⟨-, hnone⟩
    rw [hnone, List.length_nil] at hleft
    exact List.eq_nil_of_length_eq_zero (by omega)
  · intro hall
    rw [hall, List.append_nil] at hperm
    rw [hall, List.length_nil] at hlength
    refine ⟨fun r hr => ?_, List.eq_nil_of_length_eq_zero (by omega)⟩
    rw [(hperm.map (·.txid)).count_eq]
    have hnodup : ((unfailing s.toTables).map (·.txid)).Nodup :=
      List.pairwise_map.mpr (s.unique.provenTxReqs.filter _)
    exact List.count_eq_one_of_mem hnodup (List.mem_map_of_mem hr)

/-- Of 101 marked requests the last one stays marked. -/
theorem runUnfail_leaves_one :
    ∃ looked s', (runUnfail Sample.sdk (Sample.answering "success")).run Stmt.exec
        (Sample.requests .unfail 101) = (.ok looked, s') ∧
      ¬ReviewsAll (Sample.requests .unfail 101).toTables s'.toTables looked := by
  obtain ⟨s', hrun, hleft⟩ := runUnfail_seen Sample.sdk (Sample.answering "success")
    (Sample.requests .unfail 101)
  refine ⟨_, s', hrun, fun hall => ?_⟩
  rw [hall.2, List.length_nil] at hleft
  have hlength := (seen_append_passedOver_perm 100 (fun _ => true)
    (unfailing (Sample.requests .unfail 101).toTables)).length_eq
  rw [List.length_append] at hlength
  have hone : passedOver 100 (fun _ => true) (unfailing (Sample.requests .unfail 101).toTables) = [] :=
    List.eq_nil_of_length_eq_zero (by omega)
  have hmany : (unfailing (Sample.requests .unfail 101).toTables).length = 101 := by
    decide
  rw [passedOver_all_iff (by decide : 0 < 100), hmany] at hone
  omega

end WalletToolbox.Monitor
