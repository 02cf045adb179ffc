import WalletToolbox.Monitor.TaskSendWaiting

/-! # When retries take place

The timer of the runs and the timer of the retries do not see each other: each fires at the first
call that is later than its period after its last firing.
A retry takes place only where both fire. -/

namespace WalletToolbox.Monitor

/-- One call of `trigger`, followed by the run when it asked for one. -/
structure TriggerCall where
  time : UInt64
  before : SendTimers
  returned : Bool
  after : SendTimers

/-- The call wound up the timer of the retries. -/
def TriggerCall.Advances (c : TriggerCall) : Prop :=
  c.after.lastSendingRunMsecs ≠ c.before.lastSendingRunMsecs

/-- The run after the call selects the requests in `sending` too. -/
def TriggerCall.Retries (c : TriggerCall) : Prop :=
  c.returned = true ∧ .sending ∈ waitingStatuses c.after.includeSending

/-- The calls at a sequence of times. A run leaves the timers alone. -/
def triggerCalls : SendTimers → List UInt64 → List TriggerCall
  | _, [] => []
  | t, now :: rest =>
    { time := now, before := t, returned := (t.trigger now).1, after := (t.trigger now).2 } ::
      triggerCalls (t.trigger now).2 rest

/-- No retry is skipped: a call that winds up the timer leads to a retry, so there is one between
two consecutive such calls. -/
structure NoneSkipped (calls : List TriggerCall) : Prop where
  retries : ∀ c ∈ calls, c.Advances → c.Retries
  between : ∀ earlier first middle second later,
    calls = earlier ++ first :: middle ++ second :: later → first.Advances → second.Advances →
      ∃ c ∈ first :: middle, c.Retries

/-- The times at which a timer fires that fired last at `last`. -/
def firings (period : UInt64) : UInt64 → List UInt64 → List UInt64
  | _, [] => []
  | last, now :: rest =>
    if isDue period last now then now :: firings period now rest else firings period last rest

/-- The firings of a timer that has not fired yet: the first call fires it. -/
def firingsFromStart (period : UInt64) : List UInt64 → List UInt64
  | [] => []
  | now :: rest => now :: firings period now rest

/-- The firings of the timer of the retries. -/
def SendTimers.retryFirings (t : SendTimers) (nows : List UInt64) : List UInt64 :=
  match t.lastSendingRunMsecs with
  | none => firingsFromStart t.sendingMsecs nows
  | some last => firings t.sendingMsecs last nows

/-! ## One call -/

/-- Each timer is wound up at the call where it is due, and the call returns whether the one of the
runs was. -/
theorem trigger_eq (t : SendTimers) (now : UInt64) :
    t.trigger now = (isDue t.triggerMsecs t.lastRunMsecs now,
      { t with
        includeSending := t.retryDue now
        lastSendingRunMsecs := if t.retryDue now then some now else t.lastSendingRunMsecs
        lastRunMsecs := if isDue t.triggerMsecs t.lastRunMsecs now then now else t.lastRunMsecs }) := by
  unfold SendTimers.trigger
  cases hretry : t.retryDue now with
  | false => cases hdue : isDue t.triggerMsecs t.lastRunMsecs now <;> simp [hdue]
  | true => cases hdue : isDue t.triggerMsecs t.lastRunMsecs now <;> simp [hdue]

theorem retryFirings_cons (t : SendTimers) (now : UInt64) (rest : List UInt64) :
    t.retryFirings (now :: rest) =
      if t.retryDue now then now :: (t.trigger now).2.retryFirings rest
      else (t.trigger now).2.retryFirings rest := by
  rw [trigger_eq]
  unfold SendTimers.retryFirings SendTimers.retryDue
  cases hlast : t.lastSendingRunMsecs with
  | none => rfl
  | some last =>
    cases hdue : isDue t.sendingMsecs last now <;> simp [firings, hdue]

/-! ## The calls of a run -/

/-- The calls take place at the given times. -/
theorem map_time_triggerCalls (t : SendTimers) (nows : List UInt64) :
    (triggerCalls t nows).map (·.time) = nows := by
  induction nows generalizing t with
  | nil => rfl
  | cons now rest ih => rw [triggerCalls, List.map_cons, ih]

/-- The calls that ask for a run are those at which the timer of the runs fires. -/
theorem map_time_returned (t : SendTimers) (nows : List UInt64) :
    ((triggerCalls t nows).filter (·.returned)).map (·.time) =
      firings t.triggerMsecs t.lastRunMsecs nows := by
  induction nows generalizing t with
  | nil => rfl
  | cons now rest ih =>
    have hrest := ih (t.trigger now).2
    rw [trigger_eq] at hrest
    rw [triggerCalls, List.filter_cons, firings, trigger_eq]
    cases hdue : isDue t.triggerMsecs t.lastRunMsecs now with
    | false =>
      rw [hdue] at hrest
      simpa using hrest
    | true =>
      rw [hdue] at hrest
      simpa using hrest

/-- The calls that are to include the retries are those at which their timer fires. -/
theorem map_time_includeSending (t : SendTimers) (nows : List UInt64) :
    ((triggerCalls t nows).filter (·.after.includeSending)).map (·.time) = t.retryFirings nows := by
  induction nows generalizing t with
  | nil =>
    unfold SendTimers.retryFirings
    cases t.lastSendingRunMsecs <;> rfl
  | cons now rest ih =>
    have hinclude : (t.trigger now).2.includeSending = t.retryDue now := by rw [trigger_eq]
    rw [retryFirings_cons, triggerCalls, List.filter_cons, hinclude]
    cases t.retryDue now with
    | false => exact ih _
    | true => exact congrArg (now :: ·) (ih _)

/-- The timer of the retries fired last before every one of the times. -/
def SendTimers.Before (t : SendTimers) (nows : List UInt64) : Prop :=
  ∀ now ∈ nows, t.lastSendingRunMsecs ≠ some now

theorem SendTimers.Before.trigger {t : SendTimers} {now : UInt64} {rest : List UInt64}
    (h : t.Before (now :: rest)) (hlt : ∀ later ∈ rest, now < later) :
    (t.trigger now).2.Before rest := by
  intro later hlater
  rw [trigger_eq]
  show (if t.retryDue now then some now else t.lastSendingRunMsecs) ≠ some later
  split
  · exact fun heq => UInt64.ne_of_lt (hlt later hlater) (Option.some.inj heq)
  · exact h later (List.mem_cons_of_mem _ hlater)

/-- As time goes on, a call winds up the timer of the retries exactly when it is to include them. -/
theorem advances_iff {t : SendTimers} {nows : List UInt64} (hsorted : nows.Pairwise (· < ·))
    (hbefore : t.Before nows) {c : TriggerCall} (hc : c ∈ triggerCalls t nows) :
    c.Advances ↔ c.after.includeSending = true := by
  induction nows generalizing t with
  | nil => cases hc
  | cons now rest ih =>
    obtain ⟨hlt, hrest⟩ := List.pairwise_cons.mp hsorted
    rcases List.mem_cons.mp hc with rfl | hc
    · have hne := hbefore now (List.mem_cons_self ..)
      show (t.trigger now).2.lastSendingRunMsecs ≠ t.lastSendingRunMsecs ↔ _
      rw [trigger_eq]
      cases hdue : t.retryDue now with
      | false => simp
      | true => simpa using hne.symm
    · exact ih hrest (hbefore.trigger hlt) hc

/-! ## The retries -/

/-- A run that retries follows a call at which both timers fire. -/
theorem retries_iff (c : TriggerCall) :
    c.Retries ↔ c.returned = true ∧ c.after.includeSending = true := by
  unfold TriggerCall.Retries waitingStatuses
  cases c.after.includeSending <;> simp

/-- A retry is never skipped exactly when the timer of the runs fires wherever the timer of the
retries does. -/
theorem noneSkipped_iff (triggerMsecs sendingMsecs : UInt64) (nows : List UInt64)
    (hsorted : nows.Pairwise (· < ·)) :
    NoneSkipped (triggerCalls (.withIntervals triggerMsecs sendingMsecs) nows) ↔
      ∀ now ∈ firingsFromStart sendingMsecs nows, now ∈ firings triggerMsecs 0 nows := by
  have hbefore : (SendTimers.withIntervals triggerMsecs sendingMsecs).Before nows := nofun
  have hadvances {c : TriggerCall} := advances_iff hsorted hbefore (c := c)
  rw [show firings triggerMsecs 0 nows = _ from (map_time_returned
      (.withIntervals triggerMsecs sendingMsecs) nows).symm,
    show firingsFromStart sendingMsecs nows = _ from (map_time_includeSending
      (.withIntervals triggerMsecs sendingMsecs) nows).symm]
  generalize hcalls : triggerCalls (.withIntervals triggerMsecs sendingMsecs) nows = calls
    at hadvances
  have hnodup : (calls.map (·.time)).Nodup := by
    rw [← hcalls, map_time_triggerCalls]
    exact hsorted.imp fun h => UInt64.ne_of_lt h
  constructor
  · intro h now hnow
    obtain ⟨c, hc, rfl⟩ := List.mem_map.mp hnow
    obtain ⟨hmem, hinclude⟩ := List.mem_filter.mp hc
    have hretries := (retries_iff c).mp (h.retries c hmem ((hadvances hmem).mpr hinclude))
    exact List.mem_map.mpr ⟨c, List.mem_filter.mpr ⟨hmem, hretries.1⟩, rfl⟩
  · intro h
    have hretries : ∀ c ∈ calls, c.Advances → c.Retries := by
      intro c hmem hadv
      have hinclude := (hadvances hmem).mp hadv
      obtain ⟨c', hc', htime⟩ := List.mem_map.mp
        (h c.time (List.mem_map.mpr ⟨c, List.mem_filter.mpr ⟨hmem, hinclude⟩, rfl⟩))
      obtain ⟨hmem', hreturned⟩ := List.mem_filter.mp hc'
      -- no two calls take place at one time
      have hsame : c' = c := List.inj_on_of_nodup_map hnodup hmem' hmem htime
      exact (retries_iff c).mpr ⟨hsame ▸ hreturned, hinclude⟩
    refine ⟨hretries, fun earlier first middle second later heq hfirst _ => ?_⟩
    have hmem : first ∈ calls := by
      rw [heq]
      simp
    exact ⟨first, List.mem_cons_self .., hretries first hmem hfirst⟩

/-- Calls at 1000 s, at 1295 s and at 1300.001 s: the last one is 5001 ms after a run. -/
def threeCalls : List UInt64 := [1000000, 1295000, 1300001]

theorem noneSkipped_not_threeCalls :
    ¬∀ (triggerMsecs sendingMsecs : UInt64) (nows : List UInt64), nows.Pairwise (· < ·) →
      NoneSkipped (triggerCalls (.withIntervals triggerMsecs sendingMsecs) nows) := by
  intro h
  have hskipped := h 8000 300000 threeCalls (by decide +kernel)
  let third : TriggerCall := (triggerCalls (.withIntervals 8000 300000) threeCalls)[2]
  have hmem : third ∈ triggerCalls (.withIntervals 8000 300000) threeCalls := List.getElem_mem ..
  have hadvances : third.Advances := by
    show third.after.lastSendingRunMsecs ≠ third.before.lastSendingRunMsecs
    decide +kernel
  have hreturned : third.returned = false := by decide +kernel
  rw [(hskipped.retries third hmem hadvances).1] at hreturned
  cases hreturned

theorem noneSkipped_iff_threeCalls :
    NoneSkipped (triggerCalls (.withIntervals 8000 300000) threeCalls) ↔
      ∀ now ∈ firingsFromStart 300000 threeCalls, now ∈ firings 8000 0 threeCalls :=
  noneSkipped_iff 8000 300000 threeCalls (by decide +kernel)

end WalletToolbox.Monitor
