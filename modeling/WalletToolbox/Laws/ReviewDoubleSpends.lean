import Mathlib.Logic.Function.Iterate
import WalletToolbox.Monitor.TaskReviewDoubleSpends
import WalletToolbox.Sample

/-! # What the review of double spends reaches

A call begins where the oldest checkpoint says, and a call that finds nothing there keeps the newest
checkpoint only.
While the requests stay the same each checkpoint is a number, the place behind the request it names,
and the calls are windows whose beginnings follow from these numbers. -/

namespace WalletToolbox.Monitor

open WalletToolbox.Lib WalletToolbox.Lib.Calls WalletToolbox.Storage

/-! ## Windows -/

/-- The places of the checkpoints after one more call, with `n` requests and windows of `l`. -/
def nextStarts (n l : Nat) (starts : List Nat) : List Nat :=
  if n ≤ starts.headD 0 then
    if starts.length ≤ 1 then starts else [starts.getLastD 0]
  else starts ++ [min n (starts.headD 0 + l)]

/-- Where call `k` begins. -/
def startAt (n l : Nat) (starts : List Nat) (k : Nat) : Nat :=
  ((nextStarts n l)^[k] starts).headD 0

/-- The first `calls` windows hold every request. -/
def Covers (n l : Nat) (starts : List Nat) (calls : Nat) : Prop :=
  ∀ i < n, ∃ k < calls, startAt n l starts k ≤ i ∧ i < startAt n l starts k + l

/-- When they do: without a checkpoint the second window ends the review; with checkpoints one
window holds everything and some call begins at the first request. -/
def Resumes (n l : Nat) : List Nat → Prop
  | [] => n ≤ 2 * l
  | first :: rest => n ≤ l ∧ (first = 0 ∨ rest ≠ [] ∧ n ≤ first ∧ rest.getLastD 0 = 0)

section Windows

variable {n l : Nat} {starts : List Nat}

theorem startAt_succ (k : Nat) : startAt n l starts (k + 1) = startAt n l (nextStarts n l starts) k := by
  rw [startAt, Function.iterate_succ_apply, startAt]

/-- The oldest checkpoint is used for ever when it points at a request or is the only one. -/
theorem startAt_stuck {a : Nat} {rest : List Nat} (h : a < n ∨ rest = []) (k : Nat) :
    startAt n l (a :: rest) k = a := by
  induction k generalizing rest with
  | zero => rfl
  | succ k ih =>
    rw [startAt_succ, nextStarts, List.headD_cons]
    rcases Nat.lt_or_ge a n with hlt | hge
    · rw [if_neg (by omega), List.cons_append]
      exact ih (.inl hlt)
    · obtain rfl := h.resolve_left (by omega)
      rw [if_pos hge, if_pos (by rw [List.length_singleton])]
      exact ih (.inr rfl)

/-- One window that comes again and again. -/
theorem window_all_iff {a : Nat} : (∀ i < n, a ≤ i ∧ i < a + l) ↔ n = 0 ∨ (a = 0 ∧ n ≤ l) := by
  constructor
  · intro h
    rcases Nat.eq_zero_or_pos n with hzero | hpos
    · exact .inl hzero
    · have hfirst := h 0 hpos
      have hlast := h (n - 1) (by omega)
      omega
  · rintro (rfl | ⟨rfl, hle⟩) i hi <;> omega

theorem covers_stuck_iff {a calls : Nat} {rest : List Nat} (h : a < n ∨ rest = []) (hcalls : 0 < calls) :
    Covers n l (a :: rest) calls ↔ n = 0 ∨ (a = 0 ∧ n ≤ l) := by
  rw [← window_all_iff]
  refine forall₂_congr fun i _ => ?_
  simp only [startAt_stuck h]
  exact ⟨fun ⟨_, _, hi⟩ => hi, fun hi => ⟨0, hcalls, hi⟩⟩

/-- Two calls show what any number of them reach. -/
theorem covers_iff {calls : Nat} (hcalls : 2 ≤ calls) :
    Covers n l starts calls ↔ n = 0 ∨ Resumes n l starts := by
  obtain ⟨more, rfl⟩ : ∃ more, calls = more + 1 := ⟨calls - 1, by omega⟩
  -- the first window, and those after it
  have hsplit : Covers n l starts (more + 1) ↔ ∀ i < n,
      (starts.headD 0 ≤ i ∧ i < starts.headD 0 + l) ∨
        ∃ k < more, startAt n l (nextStarts n l starts) k ≤ i ∧
          i < startAt n l (nextStarts n l starts) k + l := by
    refine forall₂_congr fun i _ => ?_
    constructor
    · rintro ⟨k, hk, hi⟩
      cases k with
      | zero => exact .inl hi
      | succ k =>
        rw [startAt_succ] at hi
        exact .inr ⟨k, by omega, hi⟩
    · rintro (hi | ⟨k, hk, hi⟩)
      · exact ⟨0, by omega, hi⟩
      · refine ⟨k + 1, by omega, ?_⟩
        rw [startAt_succ]
        exact hi
  cases starts with
  | nil =>
    rw [hsplit, Resumes]
    rcases Nat.eq_zero_or_pos n with rfl | hpos
    · simp
    · have hnext : nextStarts n l [] = [min n l] := by
        rw [nextStarts, List.headD_nil, if_neg (by omega), Nat.zero_add, List.nil_append]
      simp only [hnext, startAt_stuck (.inr rfl), List.headD_nil]
      constructor
      · intro h
        obtain hi | ⟨k, -, hi⟩ := h (n - 1) (by omega) <;> omega
      · rintro hle i hi
        by_cases hfirst : i < l
        · exact .inl ⟨Nat.zero_le i, by omega⟩
        · exact .inr ⟨0, by omega, by omega, by omega⟩
  | cons first rest =>
    rw [Resumes]
    by_cases hstuck : first < n ∨ rest = []
    · rw [covers_stuck_iff hstuck (by omega)]
      constructor
      · rintro (hzero | ⟨hfirst, hle⟩)
        · exact .inl hzero
        · exact .inr ⟨hle, .inl hfirst⟩
      · rintro (hzero | ⟨hle, hfirst | ⟨hne, hge, -⟩⟩)
        · exact .inl hzero
        · exact .inr ⟨hfirst, hle⟩
        · rcases hstuck with hlt | hnil
          · omega
          · exact absurd hnil hne
    · -- nothing is left behind the oldest checkpoint, so the newest one remains
      rw [not_or, Nat.not_lt] at hstuck
      have hnext : nextStarts n l (first :: rest) = [rest.getLastD 0] := by
        obtain ⟨last, hlast⟩ := Option.ne_none_iff_exists'.mp (mt List.getLast?_eq_none_iff.mp hstuck.2)
        rw [nextStarts, List.headD_cons, if_pos hstuck.1, if_neg]
        · simp [List.getLastD_eq_getLast?, List.getLast?_cons, hlast]
        · have := List.length_pos_iff.mpr hstuck.2
          rw [List.length_cons]
          omega
      have hlater : (∀ i < n, (first ≤ i ∧ i < first + l) ∨
          ∃ k < more, rest.getLastD 0 ≤ i ∧ i < rest.getLastD 0 + l) ↔
          ∀ i < n, rest.getLastD 0 ≤ i ∧ i < rest.getLastD 0 + l := by
        refine forall₂_congr fun i hi => ?_
        constructor
        · rintro (hfirst | ⟨_, _, h⟩)
          · omega
          · exact h
        · exact fun h => .inr ⟨0, by omega, h⟩
      rw [hsplit, hnext]
      simp only [startAt_stuck (.inr rfl), List.headD_cons]
      rw [hlater, window_all_iff]
      constructor
      · rintro (hzero | ⟨hlast, hle⟩)
        · exact .inl hzero
        · exact .inr ⟨hle, .inr ⟨hstuck.2, hstuck.1, hlast⟩⟩
      · rintro (hzero | ⟨hle, hfirst | ⟨-, -, hlast⟩⟩)
        · exact .inl hzero
        · omega
        · exact .inr ⟨hlast, hle⟩

end Windows

/-! ## Checkpoints -/

theorem ReviewDoubleSpendCheckpoint.ofJson_toJson (cp : ReviewDoubleSpendCheckpoint) :
    ofJson cp.toJson = some cp := by
  obtain ⟨resumeOffset, expected, reviewLimit, minAgeMinutes, reviewed, unfails⟩ := cp
  cases expected <;> simp [ofJson, toJson, Json.get?, Json.asInt?, natOf?, optIntOf?]

/-- What the task writes: without a request to name it starts again at the beginning. -/
def ReviewDoubleSpendCheckpoint.Written (cp : ReviewDoubleSpendCheckpoint) : Prop :=
  0 ≤ cp.resumeOffset ∧ (cp.expectedProvenTxReqId = none → cp.resumeOffset = 0)

/-- The task wrote all events of its name. -/
def OwnEvents (events : Table MonitorEvent) : Prop :=
  ∀ e ∈ reviewEvents events, ∃ cp : ReviewDoubleSpendCheckpoint, cp.Written ∧ e.details = some cp.toJson

/-- Where a call begins that resumes at a checkpoint. -/
def placeOf (requests : List ProvenTxReq) (e : MonitorEvent) : Nat :=
  (startOffset requests (e.checkpoint.map fun cp =>
    (cp.resumeOffset, cp.expectedProvenTxReqId))).toNat

/-- The places of all checkpoints. -/
def starts (requests : List ProvenTxReq) (events : Table MonitorEvent) : List Nat :=
  (reviewEvents events).map (placeOf requests)

section Checkpoints

variable {requests : List ProvenTxReq} {events : Table MonitorEvent} {e : MonitorEvent}

theorem checkpoint_of_details {cp : ReviewDoubleSpendCheckpoint} (h : e.details = some cp.toJson) :
    e.checkpoint = some cp := by
  rw [MonitorEvent.checkpoint, h, Option.bind_some, ReviewDoubleSpendCheckpoint.ofJson_toJson]

theorem startOffset_nonneg {cp : ReviewDoubleSpendCheckpoint} (h : cp.Written) :
    0 ≤ startOffset requests (some (cp.resumeOffset, cp.expectedProvenTxReqId)) := by
  obtain ⟨resumeOffset, expected, _, _, _, _⟩ := cp
  have hoffset : 0 ≤ resumeOffset := h.1
  cases expected with
  | none => exact hoffset
  | some expected =>
    simp only [startOffset]
    split
    · split <;> omega
    · exact Int.le_refl 0

/-- The call begins at the place of the oldest checkpoint. -/
theorem startOffset_getLastCheckpoint (h : OwnEvents events) :
    startOffset requests (getLastCheckpoint events) = ((starts requests events).headD 0 : Nat) := by
  unfold getLastCheckpoint starts
  cases hevents : reviewEvents events with
  | nil => rfl
  | cons e rest =>
    obtain ⟨cp, hwritten, hdetails⟩ := h e (hevents ▸ List.mem_cons_self)
    have hcp := checkpoint_of_details hdetails
    have hfirst : (sqlPage 5 0 (e :: rest)).findSome? MonitorEvent.checkpoint = some cp := by
      show ((e :: rest).take 5).findSome? MonitorEvent.checkpoint = some cp
      rw [List.take_succ_cons, List.findSome?_cons, hcp]
    rw [hfirst, List.map_cons, List.headD_cons, placeOf, hcp, Option.map_some]
    exact (Int.toNat_of_nonneg (startOffset_nonneg hwritten)).symm

theorem foldl_max_ids {events : List MonitorEvent} {last : MonitorEvent}
    (hsorted : (events ++ [last]).Pairwise fun a b => a.id < b.id) :
    ((events ++ [last]).map (·.id)).foldl max 0 = last.id := by
  have hle : ∀ (xs : List Nat) (m : Nat), (∀ x ∈ xs, x ≤ m) → ∀ k ≤ m, xs.foldl max k ≤ m := by
    intro xs m
    induction xs with
    | nil => exact fun _ k hk => hk
    | cons x xs ih =>
      intro hx k hk
      exact ih (fun y hy => hx y (List.mem_cons_of_mem _ hy)) _
        (Nat.max_le.mpr ⟨hk, hx x List.mem_cons_self⟩)
  rw [List.map_append, List.foldl_append]
  refine Nat.max_eq_right (hle _ _ (fun x hx => ?_) 0 (Nat.zero_le _))
  obtain ⟨e, he, rfl⟩ := List.mem_map.mp hx
  exact Nat.le_of_lt ((List.pairwise_append.mp hsorted).2.2 e he last (List.mem_singleton.mpr rfl))

/-- A purge keeps the newest checkpoint. -/
theorem reviewEvents_purge :
    reviewEvents (purgeOldCheckpoints events) =
      if (reviewEvents events).length ≤ 1 then reviewEvents events
      else (reviewEvents events).getLast?.toList := by
  unfold purgeOldCheckpoints
  simp only
  split
  · rfl
  · rename_i hmany
    have hsorted : (reviewEvents events).Pairwise fun a b => a.id < b.id := events.sorted.filter _
    have hdelete : ∀ m, reviewEvents (events.delete fun e => e.event == reviewEvent && e.id < m) =
        (reviewEvents events).filter fun e => !decide (e.id < m) := by
      intro m
      simp only [reviewEvents, Table.find, Table.delete, List.filter_filter]
      refine List.filter_congr fun e _ => ?_
      cases e.event == reviewEvent <;> simp
    rw [hdelete]
    obtain ⟨first, last, hsplit⟩ := (List.eq_nil_or_concat (reviewEvents events)).resolve_left
      fun hnil => by rw [hnil] at hmany; exact hmany (Nat.zero_le 1)
    rw [List.concat_eq_append] at hsplit
    rw [hsplit] at hsorted ⊢
    rw [foldl_max_ids hsorted, List.filter_append, List.getLast?_concat]
    have hnone : first.filter (fun e => !decide (e.id < last.id)) = [] := by
      refine List.filter_eq_nil_iff.mpr fun e he => ?_
      have hlt := (List.pairwise_append.mp hsorted).2.2 e he last (List.mem_singleton.mpr rfl)
      simpa using hlt
    rw [hnone]
    simp

theorem reviewEvents_save (now : Nat) (cp : ReviewDoubleSpendCheckpoint) :
    ∃ e, e.details = some cp.toJson ∧
      reviewEvents (saveCheckpoint now cp events) = reviewEvents events ++ [e] := by
  refine ⟨{ createdAt := toSeconds now, updatedAt := toSeconds now, id := events.lastId + 1
            event := reviewEvent, details := some cp.toJson }, rfl,
    (Table.find_insert (t := events)).trans ?_⟩
  rw [if_pos (beq_self_eq_true reviewEvent)]
  rfl

theorem OwnEvents.purge (h : OwnEvents events) : OwnEvents (purgeOldCheckpoints events) := by
  intro e he
  refine h e ?_
  rw [reviewEvents_purge] at he
  split at he
  · exact he
  · exact List.mem_of_getLast? (Option.mem_toList.mp he)

theorem OwnEvents.save (h : OwnEvents events) {now : Nat} {cp : ReviewDoubleSpendCheckpoint}
    (hcp : cp.Written) : OwnEvents (saveCheckpoint now cp events) := by
  obtain ⟨new, hdetails, hevents⟩ := @reviewEvents_save events now cp
  intro e he
  rw [hevents] at he
  rcases List.mem_append.mp he with he | he
  · exact h e he
  · rw [List.mem_singleton.mp he]
    exact ⟨cp, hcp, hdetails⟩

end Checkpoints

/-! ## One call -/

section Call

variable {task : TaskReviewDoubleSpends} {services : Services} {requests : List ProvenTxReq}
  {w : ReviewState}

/-- The services do not know any transaction. -/
def NeverKnown (services : Services) : Prop :=
  ∀ txid, isUnknown services txid = true

theorem outcome_reviewReqs (hunknown : NeverKnown services) (reqs : List ProvenTxReq) (tally : Tally)
    (w : ReviewState) :
    outcome (reqs.foldlM (reviewReq services) tally) w =
      (.ok { unfailed := tally.unfailed, stillUnknown := tally.stillUnknown + reqs.length
             lastDoubleSpendId := (reqs.getLast?.map fun r => (r.provenTxReqId : Int)).or
               tally.lastDoubleSpendId
             retainedCount := tally.retainedCount + reqs.length },
        { w with asked := w.asked ++ reqs.map (·.txid) }) := by
  induction reqs generalizing tally w with
  | nil => simp [outcome]; rfl
  | cons req reqs ih =>
    rw [List.foldlM_cons, outcome_bind]
    have hone : outcome (reviewReq services tally req) w =
        (.ok { tally with
            stillUnknown := tally.stillUnknown + 1, lastDoubleSpendId := some req.provenTxReqId
            retainedCount := tally.retainedCount + 1 },
          { w with asked := w.asked ++ [req.txid] }) := by
      unfold reviewReq
      rw [hunknown req.txid]
      rfl
    rw [hone]
    show outcome (reqs.foldlM (reviewReq services) _) _ = _
    rw [ih]
    have hlast : ((req :: reqs).getLast?.map fun r => (r.provenTxReqId : Int)).or tally.lastDoubleSpendId =
        (reqs.getLast?.map fun r => (r.provenTxReqId : Int)).or (some req.provenTxReqId) := by
      rw [List.getLast?_cons]
      cases reqs.getLast? <;> rfl
    rw [hlast]
    simp only [List.length_cons, List.map_cons, List.append_assoc, List.singleton_append, Prod.mk.injEq,
      Except.ok.injEq, Tally.mk.injEq, and_true, true_and]
    constructor
    · omega
    · push_cast
      omega

/-- The page of a call is its window of the requests. -/
theorem sqlPage_window {limit : Int} (hlimit : 1 ≤ limit) (start : Nat) (rows : List ProvenTxReq) :
    sqlPage limit start rows = (rows.drop start).take limit.toNat := by
  unfold sqlPage
  simp only [Int.toNat_natCast]
  rw [if_neg (by omega)]

/-- The place of the checkpoint that names the last request of a window. -/
theorem startOffset_last {start : Nat} {page : List ProvenTxReq} {last : ProvenTxReq}
    (hpage : page <+: requests.drop start) (hlast : page.getLast? = some last) :
    startOffset requests (some ((start : Int) + page.length - 1, some (last.provenTxReqId : Int))) =
      ((start + page.length : Nat) : Int) := by
  have hpos : 0 < page.length := by
    rcases page with _ | ⟨_, _⟩
    · cases hlast
    · exact Nat.succ_pos _
  have hget : requests[start + page.length - 1]? = some last := by
    rw [List.getLast?_eq_getElem?] at hlast
    obtain ⟨rest, hrest⟩ := hpage
    have hdrop : (requests.drop start)[page.length - 1]? = some last := by
      rw [← hrest, List.getElem?_append_left (by omega), hlast]
    rw [List.getElem?_drop] at hdrop
    rw [← hdrop]
    congr 1
    omega
  have hat : ((start : Int) + page.length - 1).toNat = start + page.length - 1 := by omega
  have hfound : (sqlPage 1 ((start : Int) + page.length - 1) requests).head? = some last := by
    show ((requests.drop ((start : Int) + page.length - 1).toNat).take 1).head? = some last
    rw [hat, List.head?_take, List.head?_drop, hget]
    rfl
  simp only [startOffset, hfound]
  rw [if_neg (by simp)]
  push_cast
  omega

/-- What a call does to the checkpoints, and what it asks. -/
structure Called (requests : List ProvenTxReq) (l : Nat) (w w' : ReviewState) : Prop where
  own : OwnEvents w'.events
  starts : starts requests w'.events = nextStarts requests.length l (starts requests w.events)
  asked : w'.asked = w.asked ++
    ((requests.drop ((Monitor.starts requests w.events).headD 0)).take l).map (·.txid)

theorem outcome_runReviewDoubleSpends (hunknown : NeverKnown services) (hlimit : 1 ≤ task.reviewLimit)
    (hfixed : doubleSpends w.store.toTables = requests)
    (hold : ∀ r ∈ requests,
      (r.updatedAt : Int) ≤ (w.store.now : Int) - 60000 * asI64 task.minAgeMinutes.toNat)
    (hown : OwnEvents w.events) :
    ∃ msg w', outcome (runReviewDoubleSpends task services) w = (.ok msg, w') ∧
      Called requests task.reviewLimit.toNat w w' := by
  suffices h : Leaves (runReviewDoubleSpends task services)
      (fun _ w' => Called requests task.reviewLimit.toNat w w') (fun _ => False) w from h.total
  have hstart := @startOffset_getLastCheckpoint requests w.events hown
  have hlength : (starts requests w.events).length = (reviewEvents w.events).length := List.length_map ..
  generalize hs : (starts requests w.events).headD 0 = start at hstart
  generalize hpage : (requests.drop start).take task.reviewLimit.toNat = page
  have hreqs : (sqlPage task.reviewLimit start requests).filter (fun r =>
      (r.updatedAt : Int) ≤ (w.store.now : Int) - 60000 * asI64 task.minAgeMinutes.toNat) = page := by
    rw [sqlPage_window hlimit, hpage]
    refine List.filter_eq_self.mpr fun r hr => decide_eq_true (hold r ?_)
    rw [← hpage] at hr
    exact List.mem_of_mem_drop (List.mem_of_mem_take hr)
  have hpagelen : page.length = min task.reviewLimit.toNat (requests.length - start) := by
    rw [← hpage, List.length_take, List.length_drop]
  unfold runReviewDoubleSpends
  rw [leaves_bind, leaves_get]
  simp only [hfixed, hstart, hreqs]
  by_cases hempty : page = []
  · rw [if_pos (List.isEmpty_iff.mpr hempty), leaves_bind, leaves_modify, leaves_pure]
    rw [hempty, List.length_nil] at hpagelen
    refine ⟨hown.purge, ?_, ?_⟩
    · rw [nextStarts, hs, if_pos (by omega), hlength]
      simp only [starts, reviewEvents_purge]
      split
      · rfl
      · rename_i hmany
        cases hlast : (reviewEvents w.events).getLast? with
        | none =>
          rw [List.getLast?_eq_none_iff.mp hlast] at hmany
          exact absurd (Nat.zero_le 1) hmany
        | some last =>
          rw [List.getLastD_eq_getLast?, List.getLast?_map, hlast]
          rfl
    · rw [hs, hpage, hempty]
      simp
  · rw [if_neg (by simpa using hempty), leaves_bind, leaves_modify, leaves_bind]
    have hpos : 0 < page.length := List.length_pos_iff.mpr hempty
    obtain ⟨last, hlast⟩ := Option.ne_none_iff_exists'.mp (mt List.getLast?_eq_none_iff.mp hempty)
    have hplace := startOffset_last (hpage ▸ List.take_prefix _ _) hlast
    unfold Leaves
    rw [outcome_reviewReqs hunknown, hlast]
    rw [Option.map_some, Option.some_or]
    simp only [Option.isSome_some, if_true, Int.zero_add]
    let cp : ReviewDoubleSpendCheckpoint :=
      { resumeOffset := (start : Int) + page.length - 1
        expectedProvenTxReqId := some (last.provenTxReqId : Int), reviewLimit := task.reviewLimit
        minAgeMinutes := task.minAgeMinutes.toNat, reviewed := page.length, unfails := 0 }
    have hoffset : (0 : Int) ≤ start + page.length - 1 := by omega
    refine ⟨@OwnEvents.save _ hown _ cp ⟨hoffset, nofun⟩, ?_, ?_⟩
    · obtain ⟨new, hdetails, hevents⟩ := @reviewEvents_save w.events w.store.now cp
      have hnew : placeOf requests new = start + page.length := by
        rw [placeOf, checkpoint_of_details hdetails]
        exact congrArg Int.toNat hplace
      show (reviewEvents (saveCheckpoint _ cp w.events)).map (placeOf requests) = _
      rw [hevents, List.map_append, List.map_singleton, hnew, nextStarts, hs, if_neg (by omega)]
      have hend : start + page.length = min requests.length (start + task.reviewLimit.toNat) := by
        omega
      rw [hend]
      rfl
    · rw [hs, hpage]

end Call

/-! ## Consecutive calls -/

/-- The state after `k` calls, when call `i` finds the database `stores i`. -/
def afterCalls (task : TaskReviewDoubleSpends) (services : Services) (stores : Nat → Store)
    (w : ReviewState) : Nat → ReviewState
  | 0 => w
  | k + 1 =>
    (outcome (runReviewDoubleSpends task services)
      { afterCalls task services stores w k with store := stores k }).2

/-- The same requests are there at every call, all of them old enough, and the services know none. -/
structure Undisturbed (task : TaskReviewDoubleSpends) (services : Services)
    (requests : List ProvenTxReq) (stores : Nat → Store) : Prop where
  limit : 1 ≤ task.reviewLimit
  unknown : NeverKnown services
  fixed : ∀ k, doubleSpends (stores k).toTables = requests
  old : ∀ k, ∀ r ∈ requests,
    (r.updatedAt : Int) ≤ ((stores k).now : Int) - 60000 * asI64 task.minAgeMinutes.toNat

/-- Between two states the services were asked about every request. -/
def ReviewedBetween (requests : List ProvenTxReq) (w w' : ReviewState) : Prop :=
  ∀ r ∈ requests, r.txid ∈ w'.asked.drop w.asked.length

section Calls

variable {task : TaskReviewDoubleSpends} {services : Services} {requests : List ProvenTxReq}
  {stores : Nat → Store} {w : ReviewState}

theorem Undisturbed.called (h : Undisturbed task services requests stores) (hown : OwnEvents w.events)
    (k : Nat) : Called requests task.reviewLimit.toNat w
      (outcome (runReviewDoubleSpends task services) { w with store := stores k }).2 := by
  obtain ⟨_, w', hrun, hcalled⟩ := @outcome_runReviewDoubleSpends task services requests
    { w with store := stores k } h.unknown h.limit (h.fixed k) (h.old k) hown
  rw [hrun]
  exact ⟨hcalled.own, hcalled.starts, hcalled.asked⟩

theorem Undisturbed.shift (h : Undisturbed task services requests stores) (j : Nat) :
    Undisturbed task services requests fun k => stores (j + k) :=
  ⟨h.limit, h.unknown, fun k => h.fixed (j + k), fun k => h.old (j + k)⟩

theorem afterCalls_add (j k : Nat) :
    afterCalls task services stores w (j + k) =
      afterCalls task services (fun i => stores (j + i)) (afterCalls task services stores w j) k := by
  induction k with
  | zero => rfl
  | succ k ih => rw [← Nat.add_assoc, afterCalls, ih, afterCalls]

/-- The checkpoints follow their places, and each call asks about its window. -/
theorem Undisturbed.afterCalls (h : Undisturbed task services requests stores)
    (hown : OwnEvents w.events) (k : Nat) :
    OwnEvents (afterCalls task services stores w k).events ∧
      starts requests (afterCalls task services stores w k).events =
        (nextStarts requests.length task.reviewLimit.toNat)^[k] (starts requests w.events) ∧
      (afterCalls task services stores w k).asked = w.asked ++ (List.range k).flatMap fun i =>
        ((requests.drop (startAt requests.length task.reviewLimit.toNat (starts requests w.events) i)).take
          task.reviewLimit.toNat).map (·.txid) := by
  induction k with
  | zero => exact ⟨hown, rfl, by simp [Monitor.afterCalls]⟩
  | succ k ih =>
    obtain ⟨hownk, hstarts, hasked⟩ := ih
    have hcalled := h.called hownk k
    refine ⟨hcalled.own, ?_, ?_⟩
    · rw [Function.iterate_succ_apply', ← hstarts]
      exact hcalled.starts
    · refine hcalled.asked.trans ?_
      rw [hasked, hstarts, List.range_succ, List.flatMap_append, List.flatMap_singleton,
        List.append_assoc]
      rfl

theorem nodup_doubleSpends_txid (s : Store) : ((doubleSpends s.toTables).map (·.txid)).Nodup :=
  List.pairwise_map.mpr (s.unique.provenTxReqs.filter _)

/-- A request is asked about when a window holds its place. -/
theorem mem_window_txid {xs : List ProvenTxReq} (hnodup : (xs.map (·.txid)).Nodup) {i start l : Nat}
    (hi : i < xs.length) :
    xs[i].txid ∈ ((xs.drop start).take l).map (·.txid) ↔ start ≤ i ∧ i < start + l := by
  rw [List.mem_map]
  constructor
  · rintro ⟨r, hr, htxid⟩
    obtain ⟨k, hk, hget⟩ := List.mem_take_iff_getElem.mp hr
    rw [List.getElem_drop] at hget
    have hlen : start + k < xs.length := by
      rw [List.length_drop] at hk
      omega
    have hsame : (xs.map (·.txid))[start + k]? = (xs.map (·.txid))[i]? := by
      rw [List.getElem?_map, List.getElem?_map, List.getElem?_eq_getElem hlen,
        List.getElem?_eq_getElem hi, hget, Option.map_some, Option.map_some, htxid]
    have hindex := (List.getElem?_inj (by rw [List.length_map]; exact hlen) hnodup).mp hsame
    rw [List.length_drop] at hk
    omega
  · rintro ⟨hge, hlt⟩
    refine ⟨xs[i], List.mem_take_iff_getElem.mpr ⟨i - start, ?_, ?_⟩, rfl⟩
    · rw [List.length_drop]
      omega
    · rw [List.getElem_drop]
      congr 1
      omega

/-- Consecutive calls review all requests when their windows hold all places. -/
theorem Undisturbed.reviewed_iff (h : Undisturbed task services requests stores)
    (hown : OwnEvents w.events) (calls : Nat) :
    ReviewedBetween requests w (Monitor.afterCalls task services stores w calls) ↔
      Covers requests.length task.reviewLimit.toNat (starts requests w.events) calls := by
  have hnodup := nodup_doubleSpends_txid (stores 0)
  rw [h.fixed 0] at hnodup
  obtain ⟨-, -, hasked⟩ := h.afterCalls hown calls
  rw [ReviewedBetween, hasked, List.drop_left]
  constructor
  · intro hall i hi
    obtain ⟨k, hk, hmem⟩ := List.mem_flatMap.mp (hall requests[i] (List.getElem_mem hi))
    exact ⟨k, List.mem_range.mp hk, (mem_window_txid hnodup hi).mp hmem⟩
  · intro hall r hr
    obtain ⟨i, hi, rfl⟩ := List.mem_iff_getElem.mp hr
    obtain ⟨k, hk, hwindow⟩ := hall i hi
    exact List.mem_flatMap.mpr ⟨k, List.mem_range.mpr hk, (mem_window_txid hnodup hi).mpr hwindow⟩

/-- From any state of a run, as many calls as there are pages and two more review every request
exactly when the checkpoints found there resume. -/
theorem reviewed_between_iff (h : Undisturbed task services requests stores)
    (hown : OwnEvents w.events) (j : Nat) :
    ReviewedBetween requests (Monitor.afterCalls task services stores w j)
        (Monitor.afterCalls task services stores w
          (j + ((requests.length + task.reviewLimit.toNat - 1) / task.reviewLimit.toNat + 2))) ↔
      requests.length = 0 ∨ Resumes requests.length task.reviewLimit.toNat
        (starts requests (Monitor.afterCalls task services stores w j).events) := by
  rw [afterCalls_add, (h.shift j).reviewed_iff (h.afterCalls hown j).1]
  exact covers_iff (Nat.le_add_left 2 _)

end Calls

/-! ## Databases with many double spends -/

/-- The first `n` requests, an hour and a half after they were written. -/
def manyDoubleSpends (n : Nat) : Store :=
  (Sample.requests .doubleSpend n).tick 5400000

def unreviewed (n : Nat) : ReviewState :=
  { store := manyDoubleSpends n }

theorem undisturbed_many (n : Nat) :
    Undisturbed {} (Sample.answering "success") (doubleSpends (manyDoubleSpends n).toTables)
      fun _ => manyDoubleSpends n where
  limit := by decide
  unknown _ := rfl
  fixed _ := rfl
  old _ r hr := by
    obtain ⟨i, -, rfl⟩ := List.mem_map.mp (List.mem_filter.mp hr).1
    show (0 : Int) ≤ 5400000 - 60000 * asI64 60
    decide

theorem ownEvents_none : OwnEvents Table.empty := nofun

theorem length_manyDoubleSpends (n : Nat) :
    (doubleSpends (manyDoubleSpends n).toTables).length = n := by
  have hall : doubleSpends (manyDoubleSpends n).toTables = (manyDoubleSpends n).provenTxReqs.rows := by
    refine List.filter_eq_self.mpr fun r hr => ?_
    obtain ⟨i, -, rfl⟩ := List.mem_map.mp hr
    rfl
  rw [hall]
  show ((List.range n).map _).length = n
  rw [List.length_map, List.length_range]

theorem reviewed_between_150 :
    ReviewedBetween (doubleSpends (manyDoubleSpends 150).toTables)
        (afterCalls {} (Sample.answering "success") (fun _ => manyDoubleSpends 150) (unreviewed 150) 0)
        (afterCalls {} (Sample.answering "success") (fun _ => manyDoubleSpends 150) (unreviewed 150) 4) := by
  have h := (reviewed_between_iff (undisturbed_many 150) (w := unreviewed 150) ownEvents_none 0).mpr
  rw [length_manyDoubleSpends] at h
  have hresumes : 150 ≤ 2 * 100 := by decide
  exact h (.inr hresumes)

/-- With 201 double spends the calls after the second one review the second hundred again. -/
theorem not_reviewed_201 :
    ¬ReviewedBetween (doubleSpends (manyDoubleSpends 201).toTables)
        (afterCalls {} (Sample.answering "success") (fun _ => manyDoubleSpends 201) (unreviewed 201) 0)
        (afterCalls {} (Sample.answering "success") (fun _ => manyDoubleSpends 201) (unreviewed 201) 5) := by
  show ¬ReviewedBetween _ (unreviewed 201) _
  rw [(undisturbed_many 201).reviewed_iff ownEvents_none, covers_iff (by decide),
    length_manyDoubleSpends]
  show ¬(201 = 0 ∨ 201 ≤ 2 * 100)
  decide

end WalletToolbox.Monitor
