import WalletToolbox.Permissions.Requests

/-! # Turns of concurrent permission checks

What one turn of a call does to the other calls and to the requests: it wakes those who wait for a
request that it holds, and changes nothing else of them. -/

namespace WalletToolbox.Permissions.Requests

open WalletToolbox.Lib

variable {kit : Kit} {s s' : State} {c d r : Nat} {key : String} {call : Call} {a : Answers}

namespace State

/-- The request that the map of active requests holds for a key. -/
def active (s : State) (key : String) : Option Nat := s.vault.cache.activeRequests.lookup key

@[simp] theorem calls_setCall_self : (s.setCall c call).calls c = some call :=
  Function.update_self ..

theorem calls_setCall_ne (h : d ≠ c) : (s.setCall c call).calls d = s.calls d :=
  Function.update_of_ne h ..

@[simp] theorem calls_wake : (s.wake r).calls d = (s.calls d).map (Call.wake r) := rfl

/-- A check that has been told to wait for a request and has not registered. -/
def Told (s : State) (c r : Nat) : Prop :=
  ∃ flow query, s.calls c = some (.check flow query (.told r))

/-- A check that is registered for a request. -/
def Waiting (s : State) (c r : Nat) : Prop :=
  ∃ flow query, s.calls c = some (.check flow query (.waiting r))

/-- A check that waits for a request or is about to. -/
def WaitsFor (s : State) (c r : Nat) : Prop := s.Told c r ∨ s.Waiting c r

/-- A check that has been woken. -/
def Woken (s : State) (c r : Nat) : Prop :=
  ∃ flow query, s.calls c = some (.check flow query (.woken r))

end State

/-- The requests that have left the map and that a call has yet to notify. -/
def Call.Holds (r : Nat) : Call → Prop
  | .check _ _ (.notify request _ _ _) => request = r
  | .drain requests => r ∈ requests
  | _ => False

/-- The calls that hold the lock of the map. -/
def Call.Locking : Call → Prop
  | .check _ _ (.notify ..) => True
  | .drain _ => True
  | _ => False

def State.Held (s : State) (r : Nat) : Prop := ∃ c call, s.calls c = some call ∧ call.Holds r

theorem Call.Holds.locking (h : call.Holds r) : call.Locking := by
  cases call with
  | check flow query phase => cases phase <;> first | exact trivial | exact h
  | drain requests => exact trivial
  | _ => exact h

/-! ## Waking -/

/-- A call that neither waits nor has just been woken is what it was before. -/
theorem map_wake_eq {o : Option Call} (hwaiting : ∀ flow query r', call ≠ .check flow query (.waiting r'))
    (hwoken : ∀ flow query r', call ≠ .check flow query (.woken r')) :
    o.map (Call.wake r) = some call ↔ o = some call := by
  have hwake : ∀ call', Call.wake r call' = call ↔ call' = call := by
    intro call'
    cases call' with
    | check flow query phase =>
      cases phase with
      | waiting r' =>
        rw [Call.wake]
        constructor
        · intro heq
          split at heq
          · exact absurd heq.symm (hwoken _ _ _)
          · exact absurd heq.symm (hwaiting _ _ _)
        · intro heq
          exact absurd heq.symm (hwaiting _ _ _)
      | _ => exact Iff.rfl
    | _ => exact Iff.rfl
  cases o with
  | none => simp
  | some call' => simp only [Option.map_some, Option.some_inj, hwake]

theorem told_wake {r' : Nat} : (s.wake r).Told d r' ↔ s.Told d r' := by
  simp only [State.Told, State.calls_wake]
  constructor <;> rintro ⟨flow, query, hcall⟩
  · exact ⟨flow, query, (map_wake_eq (by simp) (by simp)).mp hcall⟩
  · exact ⟨flow, query, (map_wake_eq (by simp) (by simp)).mpr hcall⟩

theorem locking_wake {call' : Call} (hlocking : call'.Locking) :
    (s.wake r).calls d = some call' ↔ s.calls d = some call' := by
  rw [State.calls_wake]
  refine map_wake_eq ?_ ?_ <;>
  · rintro flow query' r' rfl
    exact hlocking

theorem waiting_wake {r' : Nat} : (s.wake r).Waiting d r' ↔ s.Waiting d r' ∧ r' ≠ r := by
  simp only [State.Waiting, State.calls_wake]
  constructor
  · rintro ⟨flow, query, hcall⟩
    obtain ⟨call', hcall', hwake⟩ := Option.map_eq_some_iff.mp hcall
    cases call' with
    | check flow' query' phase =>
      cases phase with
      | waiting r'' =>
        rw [Call.wake] at hwake
        split at hwake
        · cases hwake
        next hne =>
          cases hwake
          exact ⟨⟨flow, query, hcall'⟩, hne⟩
      | _ => cases hwake
    | _ => cases hwake
  · rintro ⟨⟨flow, query, hcall⟩, hne⟩
    exact ⟨flow, query, by rw [hcall, Option.map_some, Call.wake, if_neg hne]⟩

theorem woken_wake (h : s.Waiting d r) : (s.wake r).Woken d r := by
  obtain ⟨flow, query, hcall⟩ := h
  exact ⟨flow, query, by rw [State.calls_wake, hcall, Option.map_some, Call.wake, if_pos rfl]⟩

theorem State.Woken.wake {r' : Nat} (h : s.Woken d r') : (s.wake r).Woken d r' := by
  obtain ⟨flow, query, hcall⟩ := h
  exact ⟨flow, query, by rw [State.calls_wake, hcall]; rfl⟩

theorem woken_of_wake {r' : Nat} (h : (s.wake r).Woken d r') : s.Woken d r' ∨ r' = r := by
  obtain ⟨flow, query, hcall⟩ := h
  obtain ⟨call', hcall', hwake⟩ := Option.map_eq_some_iff.mp hcall
  cases call' with
  | check flow' query' phase =>
    cases phase with
    | waiting r'' =>
      rw [Call.wake] at hwake
      split at hwake
      next heq =>
        cases hwake
        exact .inr heq
      next => cases hwake
    | woken r'' =>
      cases hwake
      exact .inl ⟨flow, query, hcall'⟩
    | _ => cases hwake
  | _ => cases hwake

/-! ## Turns -/

/-- A turn changes another call only by waking it, when it holds the request that is waited for. -/
theorem proceed_other (kit : Kit) (a : Answers) (s : State) (hd : d ≠ c) :
    (proceed kit a s c).calls d = s.calls d ∨
      ∃ r, s.Held r ∧ (proceed kit a s c).calls d = (s.wake r).calls d := by
  have hset : ∀ (s' : State) call, s'.calls = s.calls → (s'.setCall c call).calls d = s.calls d := by
    intro s' call hsame
    rw [State.calls_setCall_ne hd, hsame]
  have hwake : ∀ (s' : State) call r, s'.calls = s.calls →
      ((s'.setCall c call).wake r).calls d = (s.wake r).calls d := by
    intro s' call r hsame
    rw [State.calls_wake, hset s' call hsame, State.calls_wake]
  rw [proceed]
  split
  next flow query phase hcall =>
    cases phase with
    | writes todo outcome =>
      cases todo with
      | nil => exact .inl (hset _ _ rfl)
      | cons write todo =>
        cases write with
        | insertCache => exact .inl (hset _ _ rfl)
        | recordRecentGrant => exact .inl (hset _ _ rfl)
        | completeRequest =>
          simp only [proceedCheck]
          split
          · exact .inl (hset _ _ rfl)
          · exact .inl (hset _ _ rfl)
    | notify request => exact .inr ⟨request, ⟨c, _, hcall, rfl⟩, hwake _ _ _ rfl⟩
    | _ =>
      simp only [proceedCheck]
      (repeat' split) <;> first | exact .inl trivial | exact .inl (hset _ _ rfl)
  · exact .inl (hset _ _ rfl)
  · exact .inl (hset _ _ rfl)
  · exact .inl (hset _ _ rfl)
  next request rest hcall =>
    exact .inr ⟨request, ⟨c, _, hcall, List.mem_cons_self⟩, hwake _ _ _ rfl⟩
  · exact .inl (hset _ _ rfl)
  · exact .inl rfl

/-- What a turn does to the requests, and what becomes of the call. -/
inductive RequestStep (s : State) (c : Nat) (s' : State) : Prop
  /-- Nothing, and it holds no request. -/
  | same (new : Call) (active : s'.vault.cache.activeRequests = s.vault.cache.activeRequests)
      (results : s'.vault.cache.results = s.vault.cache.results)
      (next : s'.vault.cache.nextRequest = s.vault.cache.nextRequest)
      (self : s'.calls c = some new) (holds : ∀ r, ¬new.Holds r)
      (woken : ∀ flow query r, new ≠ .check flow query (.woken r))
  /-- A new request joins the map. -/
  | joins (flow : Flow) (query : Query)
      (call : s.calls c = some (.check flow query .tryDeduplicate))
      (absent : s.active query.cacheKey = none)
      (active : s'.vault.cache.activeRequests =
        s.vault.cache.activeRequests.insert query.cacheKey s.vault.cache.nextRequest)
      (results : s'.vault.cache.results = s.vault.cache.results)
      (next : s'.vault.cache.nextRequest = s.vault.cache.nextRequest + 1)
      (self : s'.calls c = some (.check flow query .lookup))
  /-- The request of its key leaves the map. -/
  | leaves (flow : Flow) (query : Query) (request : Nat) (result : Except String Bool)
      (todo : List Write) (outcome : Except SdkError Unit)
      (call : s.calls c = some (.check flow query (.writes (.completeRequest result :: todo) outcome)))
      (present : s.active query.cacheKey = some request)
      (active : s'.vault.cache.activeRequests = s.vault.cache.activeRequests.erase query.cacheKey)
      (results : s'.vault.cache.results = s.vault.cache.results)
      (next : s'.vault.cache.nextRequest = s.vault.cache.nextRequest)
      (self : s'.calls c = some (.check flow query (.notify request result todo outcome)))
  /-- Its result is set. -/
  | notifies (flow : Flow) (query : Query) (request : Nat) (result : Except String Bool)
      (todo : List Write) (outcome : Except SdkError Unit)
      (call : s.calls c = some (.check flow query (.notify request result todo outcome)))
      (active : s'.vault.cache.activeRequests = s.vault.cache.activeRequests)
      (results : s'.vault.cache.results = s.vault.cache.results.insert request result)
      (next : s'.vault.cache.nextRequest = s.vault.cache.nextRequest)
      (self : s'.calls c = some (.check flow query (.writes todo outcome)))
  /-- All requests leave the map. -/
  | clears (call : s.calls c = some .clearActive) (active : s'.vault.cache.activeRequests = ∅)
      (results : s'.vault.cache.results = s.vault.cache.results)
      (next : s'.vault.cache.nextRequest = s.vault.cache.nextRequest)
      (self : s'.calls c = some (.drain (s.vault.cache.activeRequests.entries.map (·.2))))
  /-- The result of one of these is set. -/
  | drains (request : Nat) (rest : List Nat) (call : s.calls c = some (.drain (request :: rest)))
      (active : s'.vault.cache.activeRequests = s.vault.cache.activeRequests)
      (results : s'.vault.cache.results =
        s.vault.cache.results.insert request (.error "Cache cleared"))
      (next : s'.vault.cache.nextRequest = s.vault.cache.nextRequest)
      (self : s'.calls c = some (.drain rest))

theorem proceed_requests (kit : Kit) (a : Answers) (hready : s.Ready c) :
    RequestStep s c (proceed kit a s c) := by
  rw [State.Ready] at hready
  rw [proceed]
  split
  next flow query phase hcall =>
    cases phase with
    | checkCache =>
      have hsame : ∀ answer cache, s.vault.cache.checkCache s.now query.cacheKey = (answer, cache) →
          cache.activeRequests = s.vault.cache.activeRequests ∧
            cache.results = s.vault.cache.results ∧
            cache.nextRequest = s.vault.cache.nextRequest := by
        intro answer cache heq
        rw [PermissionCache.checkCache] at heq
        split at heq
        · split at heq <;> cases heq <;> exact ⟨rfl, rfl, rfl⟩
        · cases heq
          exact ⟨rfl, rfl, rfl⟩
      simp only [proceedCheck]
      split
      all_goals
        next heq =>
          obtain ⟨hactive, hresults, hnext⟩ := hsame _ _ heq
          exact .same _ hactive hresults hnext State.calls_setCall_self (fun _ => id) (by simp)
    | isRecentGrant =>
      simp only [proceedCheck]
      split
      · exact .same _ rfl rfl rfl State.calls_setCall_self (fun _ => id) (by simp)
      · refine .same _ rfl rfl rfl State.calls_setCall_self (fun _ => ?_) ?_
        · cases flow <;> exact id
        · cases flow <;> simp
    | tryDeduplicate =>
      simp only [proceedCheck, PermissionCache.tryDeduplicate]
      cases hactive : s.vault.cache.activeRequests.lookup query.cacheKey with
      | some request => exact .same _ rfl rfl rfl State.calls_setCall_self (fun _ => id) (by simp)
      | none => exact .joins flow query hcall hactive rfl rfl rfl State.calls_setCall_self
    | told => exact .same _ rfl rfl rfl State.calls_setCall_self (fun _ => id) (by simp)
    | waiting => simp [hcall, Call.Ready] at hready
    | woken => exact .same _ rfl rfl rfl State.calls_setCall_self (fun _ => id) (by simp)
    | lookup =>
      simp only [proceedCheck]
      (repeat' split) <;> exact .same _ rfl rfl rfl State.calls_setCall_self (fun _ => id) (by simp)
    | callback =>
      refine .same _ rfl rfl rfl State.calls_setCall_self (fun _ => ?_) ?_
      · split <;> exact id
      · intro _ _ _
        split <;> simp
    | grant => exact .same _ rfl rfl rfl State.calls_setCall_self (fun _ => id) (by simp)
    | writes todo outcome =>
      cases todo with
      | nil => exact .same _ rfl rfl rfl State.calls_setCall_self (fun _ => id) (by simp)
      | cons write todo =>
        cases write with
        | insertCache => exact .same _ rfl rfl rfl State.calls_setCall_self (fun _ => id) (by simp)
        | recordRecentGrant => exact .same _ rfl rfl rfl State.calls_setCall_self (fun _ => id) (by simp)
        | completeRequest result =>
          simp only [proceedCheck, PermissionCache.takeRequest]
          cases hactive : s.vault.cache.activeRequests.lookup query.cacheKey with
          | none => exact .same _ rfl rfl rfl State.calls_setCall_self (fun _ => id) (by simp)
          | some request =>
            exact .leaves flow query request result todo outcome hcall hactive rfl rfl rfl
              State.calls_setCall_self
    | notify request result todo outcome =>
      refine .notifies flow query request result todo outcome hcall rfl rfl rfl ?_
      simp [proceedCheck, Call.wake]
    | returned => simp [hcall, Call.Ready] at hready
  · exact .same _ rfl rfl rfl State.calls_setCall_self (fun _ => id) (by simp)
  · exact .same _ rfl rfl rfl State.calls_setCall_self (fun _ => id) (by simp)
  next hcall => exact .clears hcall rfl rfl rfl State.calls_setCall_self
  next request rest hcall =>
    refine .drains request rest hcall rfl rfl rfl ?_
    simp [Call.wake]
  · exact .same _ rfl rfl rfl State.calls_setCall_self (fun _ => id) (by simp)
  next =>
    cases hcall : s.calls c with
    | none => simp [hcall] at hready
    | some call =>
      rw [hcall] at hready
      cases call with
      | cleared => exact hready.elim
      | drain requests => cases requests <;> simp_all
      | _ => simp_all

/-- What a turn does to the numbers of the requests. -/
structure Turned (s : State) (c : Nat) (s' : State) : Prop where
  next : s.vault.cache.nextRequest ≤ s'.vault.cache.nextRequest
  active : ∀ key r, s'.active key = some r → s.active key = some r ∨ r = s.vault.cache.nextRequest
  holds : ∀ call r, s'.calls c = some call → call.Holds r →
    (∃ key, s.active key = some r) ∨ s.Held r
  woken : ∀ r, ¬s'.Woken c r

theorem RequestStep.turned (h : RequestStep s c s') : Turned s c s' := by
  have hwoken : ∀ new, s'.calls c = some new → (∀ flow query r, new ≠ .check flow query (.woken r)) →
      ∀ r, ¬s'.Woken c r := by
    rintro new hself hnew r ⟨flow, query, hcall⟩
    exact hnew flow query r (Option.some_inj.mp (hself.symm.trans hcall))
  cases h with
  | same new active results next self holds woken =>
    refine ⟨next.ge, fun key r hr => ?_, fun call r hcall hholds => ?_, hwoken new self woken⟩
    · rw [State.active, active] at hr
      exact .inl hr
    · obtain rfl := Option.some_inj.mp (self.symm.trans hcall)
      exact absurd hholds (holds r)
  | joins flow query call absent active results next self =>
    refine ⟨next ▸ Nat.le_succ _, fun key r hr => ?_, fun call r hcall hholds => ?_,
      hwoken _ self (by simp)⟩
    · rw [State.active, active] at hr
      by_cases hkey : key = query.cacheKey
      · subst hkey
        exact .inr (Option.some_inj.mp (hr.symm.trans (AList.lookup_insert _)))
      · exact .inl ((AList.lookup_insert_ne hkey).symm.trans hr)
    · obtain rfl := Option.some_inj.mp (self.symm.trans hcall)
      exact hholds.elim
  | leaves flow query request result todo outcome call present active results next self =>
    refine ⟨next.ge, fun key r hr => .inl ?_, fun call r hcall hholds => .inl ?_,
      hwoken _ self (by simp)⟩
    · rw [State.active, active] at hr
      have hkey : key ≠ query.cacheKey := by
        rintro rfl
        simp at hr
      exact (AList.lookup_erase_ne hkey).symm.trans hr
    · obtain rfl := Option.some_inj.mp (self.symm.trans hcall)
      exact ⟨query.cacheKey, present.trans (congrArg some hholds)⟩
  | notifies flow query request result todo outcome call active results next self =>
    refine ⟨next.ge, fun key r hr => ?_, fun call r hcall hholds => ?_, hwoken _ self (by simp)⟩
    · rw [State.active, active] at hr
      exact .inl hr
    · obtain rfl := Option.some_inj.mp (self.symm.trans hcall)
      exact hholds.elim
  | clears call active results next self =>
    refine ⟨next.ge, fun key r hr => ?_, fun call r hcall hholds => .inl ?_, hwoken _ self (by simp)⟩
    · rw [State.active, active] at hr
      simp at hr
    · obtain rfl := Option.some_inj.mp (self.symm.trans hcall)
      obtain ⟨⟨key, r'⟩, hmem, rfl⟩ := List.mem_map.mp hholds
      exact ⟨key, AList.mem_lookup_iff.mpr hmem⟩
  | drains request rest call active results next self =>
    refine ⟨next.ge, fun key r hr => ?_, fun call' r hcall hholds => .inr ?_, hwoken _ self (by simp)⟩
    · rw [State.active, active] at hr
      exact .inl hr
    · obtain rfl := Option.some_inj.mp (self.symm.trans hcall)
      exact ⟨c, _, call, List.mem_cons_of_mem _ hholds⟩

/-- A check stays the same check. -/
theorem proceed_check (kit : Kit) (a : Answers) {flow : Flow} {query : Query} {phase : Phase}
    (h : s.calls c = some (.check flow query phase)) :
    ∃ phase', (proceed kit a s c).calls c = some (.check flow query phase') := by
  rw [proceed, h]
  cases phase with
  | waiting => exact ⟨_, h⟩
  | returned => exact ⟨_, h⟩
  | notify => exact ⟨_, by simp only [proceedCheck, State.calls_wake, State.calls_setCall_self]; rfl⟩
  | writes todo outcome =>
    cases todo with
    | nil => exact ⟨_, State.calls_setCall_self⟩
    | cons write todo =>
      cases write with
      | completeRequest =>
        simp only [proceedCheck]
        split <;> exact ⟨_, State.calls_setCall_self⟩
      | _ => exact ⟨_, State.calls_setCall_self⟩
  | told => exact ⟨_, State.calls_setCall_self⟩
  | woken => exact ⟨_, State.calls_setCall_self⟩
  | callback => exact ⟨_, State.calls_setCall_self⟩
  | grant => exact ⟨_, State.calls_setCall_self⟩
  | _ =>
    simp only [proceedCheck]
    (repeat' split) <;> exact ⟨_, State.calls_setCall_self⟩

theorem check_of_proceed {flow : Flow} {query : Query} {phase : Phase}
    (h : (proceed kit a s c).calls c = some (.check flow query phase)) :
    ∃ phase', s.calls c = some (.check flow query phase') := by
  cases hcall : s.calls c with
  | none => simp [proceed, hcall] at h
  | some call =>
    cases call with
    | check flow' query' phase' =>
      obtain ⟨phase'', hself⟩ := proceed_check kit a hcall
      cases Option.some_inj.mp (hself.symm.trans h)
      exact ⟨phase', rfl⟩
    | drain requests => cases requests <;> simp [proceed, hcall, Call.wake] at h
    | _ => simp [proceed, hcall] at h

/-! ## A check to run -/

/-- The request of an application for one of its baskets. -/
def todoRequest : PermissionRequest where
  permissionType := .basketAccess
  originator := "app.example"
  basketName := some "todo"
  description := some "Basket access for \"todo\" (listing)"

def todoQuery : Query where
  cacheKey := "BasketAccess:app.example:todo"
  permissionType := .basketAccess
  originator := "app.example"
  filters := { basketName := some "todo" }
  request := todoRequest
  denialMsg := "Permission denied: basket access required for \"todo\" (originator: app.example)"

end WalletToolbox.Permissions.Requests
