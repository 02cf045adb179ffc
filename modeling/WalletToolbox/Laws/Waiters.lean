import WalletToolbox.Laws.Requests

/-! # Waiters of permission requests

A check that shares the request of another one is woken when the request is completed or cleared, if
it has registered by then.
As long as a request leaves the map only after everyone who was told to wait has registered, and the
calls that are to notify them are not dropped before they have, every waiter can be woken. -/

namespace WalletToolbox.Permissions.Requests

open WalletToolbox.Lib

variable {kit : Kit} {s s' : State} {c d r : Nat} {key : String} {call : Call} {a : Answers}

/-- The phases in which a check has a request to complete. -/
def Phase.Owning : Phase → Prop
  | .lookup => True
  | .callback => True
  | .grant _ => True
  | .writes todo _ => ∃ result, Write.completeRequest result ∈ todo
  | _ => False

/-- A check that is to complete the request of a key. -/
def State.Owns (s : State) (c : Nat) (key : String) : Prop :=
  ∃ query phase, s.calls c = some (.check .resolve query phase) ∧ query.cacheKey = key ∧
    phase.Owning

/-! ## The property -/

variable (kit) in
/-- A caller that waits for a request and that no run from here wakes. -/
def Stuck (later : State → Action → Prop) (s : State) (c : Nat) : Prop :=
  ∃ r, s.WaitsFor c r ∧ ∀ s', ((requests kit).startingAt s).Reaches later s' → ¬s'.Woken c r

/-- A turn of some call. -/
def Action.IsTurn : Action → Prop
  | .proceed _ _ => True
  | _ => False

/-- A request leaves the map only when nobody is still to register for it. A check that is to
complete a request is dropped only if another one will, and a call that has taken requests out of
the map is dropped only if nobody waits for them. -/
def Attended (s : State) : Action → Prop
  | .proceed c _ =>
    match s.calls c with
    | some (.check _ query (.writes (.completeRequest _ :: _) _)) =>
      ∀ r, s.active query.cacheKey = some r → ∀ d, ¬s.Told d r
    | some .clearActive => ∀ key r, s.active key = some r → ∀ d, ¬s.Told d r
    | _ => True
  | .cancel c =>
    (∀ key r, s.Owns c key → s.active key = some r → ∃ d, d ≠ c ∧ s.Owns d key) ∧
    ∀ call r, s.calls c = some call → call.Holds r → ∀ d, ¬s.WaitsFor d r
  | _ => True

/-! ## The invariant -/

/-- What holds in every state of such a run. -/
structure Served (s : State) : Prop where
  owned : ∀ key r, s.active key = some r → ∃ c, s.Owns c key
  told : ∀ c r, s.Told c r → ∃ key, s.active key = some r
  waiting : ∀ c r, s.Waiting c r → (∃ key, s.active key = some r) ∨ s.Held r
  locked : ∀ c, s.lock = some c ↔ ∃ call, s.calls c = some call ∧ call.Locking

/-- A call keeps to itself: the map and the lock stay, and it does not drop a request that it is to
complete. -/
theorem Served.turn (h : Served s) (hactive : ∀ key, s'.active key = s.active key)
    (hlock : s'.lock = s.lock) (hcalls : ∀ d, d ≠ c → s'.calls d = s.calls d)
    (hold : ∀ call, s.calls c = some call → ¬call.Locking)
    (hnew : ∀ call, s'.calls c = some call → ¬call.Locking)
    (hwaits : ∀ r, s'.WaitsFor c r → ∃ key, s.active key = some r)
    (howns : ∀ key r, s.Owns c key → s.active key = some r → s'.Owns c key) : Served s' where
  owned key r hr := by
    rw [hactive] at hr
    obtain ⟨d, howner⟩ := h.owned key r hr
    by_cases hd : d = c
    · subst hd
      exact ⟨d, howns key r howner hr⟩
    · obtain ⟨query, phase, hcall, hkey⟩ := howner
      exact ⟨d, query, phase, (hcalls d hd).trans hcall, hkey⟩
  told d r htold := by
    simp only [hactive]
    by_cases hd : d = c
    · subst hd
      exact hwaits r (.inl htold)
    · obtain ⟨flow, query, hcall⟩ := htold
      exact h.told d r ⟨flow, query, (hcalls d hd).symm.trans hcall⟩
  waiting d r hwaiting := by
    simp only [hactive]
    by_cases hd : d = c
    · subst hd
      exact .inl (hwaits r (.inr hwaiting))
    · obtain ⟨flow, query, hcall⟩ := hwaiting
      refine (h.waiting d r ⟨flow, query, (hcalls d hd).symm.trans hcall⟩).imp_right ?_
      rintro ⟨e, call, hcall, hholds⟩
      have he : e ≠ c := by
        rintro rfl
        exact hold call hcall hholds.locking
      exact ⟨e, call, (hcalls e he).trans hcall, hholds⟩
  locked d := by
    rw [hlock, h.locked]
    by_cases hd : d = c
    · subst hd
      constructor
      · rintro ⟨call, hcall, hlocking⟩
        exact absurd hlocking (hold call hcall)
      · rintro ⟨call, hcall, hlocking⟩
        exact absurd hlocking (hnew call hcall)
    · rw [hcalls d hd]

/-! ## One step -/

theorem owns_wake : (s.wake r).Owns d key ↔ s.Owns d key := by
  have hmap : ∀ query phase, phase.Owning →
      ((s.calls d).map (Call.wake r) = some (.check .resolve query phase) ↔
        s.calls d = some (.check .resolve query phase)) := by
    intro query phase howning
    refine map_wake_eq ?_ ?_ <;>
    · rintro flow query' r' heq
      cases heq
      exact howning
  simp only [State.Owns, State.calls_wake]
  constructor <;> rintro ⟨query, phase, hcall, hkey, howning⟩
  · exact ⟨query, phase, (hmap query phase howning).mp hcall, hkey, howning⟩
  · exact ⟨query, phase, (hmap query phase howning).mpr hcall, hkey, howning⟩

/-- A request joins the map and its check is to complete it. -/
theorem Served.joins (h : Served s) {query : Query} (hready : s.lock = none)
    (hcall : s.calls c = some (.check .resolve query .tryDeduplicate))
    (hnone : s.active query.cacheKey = none)
    (hactive : ∀ key, s'.active key = if key = query.cacheKey then some r else s.active key)
    (hlock : s'.lock = s.lock)
    (hcalls : s'.calls = Function.update s.calls c (some (.check .resolve query .lookup))) :
    Served s' := by
  have hself : s'.calls c = some (.check .resolve query .lookup) := by
    rw [hcalls, Function.update_self]
  have hother : ∀ d, d ≠ c → s'.calls d = s.calls d := fun d hd => by
    rw [hcalls, Function.update_of_ne hd]
  have hkept : ∀ r', (∃ key, s.active key = some r') → ∃ key, s'.active key = some r' := by
    rintro r' ⟨key, hr⟩
    refine ⟨key, ?_⟩
    rw [hactive, if_neg, hr]
    rintro rfl
    rw [hnone] at hr
    cases hr
  refine ⟨fun key r' hr => ?_, fun d r' htold => ?_, fun d r' hwaiting => ?_, fun d => ?_⟩
  · by_cases hkey : key = query.cacheKey
    · exact ⟨c, query, .lookup, hself, hkey.symm, trivial⟩
    · rw [hactive, if_neg hkey] at hr
      obtain ⟨d, query', phase, hcall', hkey', howning⟩ := h.owned key r' hr
      have hd : d ≠ c := by
        rintro rfl
        rw [hcall] at hcall'
        cases hcall'
        exact howning
      exact ⟨d, query', phase, (hother d hd).trans hcall', hkey', howning⟩
  · obtain ⟨flow, query', hcall'⟩ := htold
    have hd : d ≠ c := by
      rintro rfl
      rw [hself] at hcall'
      cases hcall'
    exact hkept r' (h.told d r' ⟨flow, query', (hother d hd).symm.trans hcall'⟩)
  · obtain ⟨flow, query', hcall'⟩ := hwaiting
    have hd : d ≠ c := by
      rintro rfl
      rw [hself] at hcall'
      cases hcall'
    rcases h.waiting d r' ⟨flow, query', (hother d hd).symm.trans hcall'⟩ with hr | ⟨e, call, he, hholds⟩
    · exact .inl (hkept r' hr)
    · have hlocked := (h.locked e).mpr ⟨call, he, hholds.locking⟩
      rw [hready] at hlocked
      cases hlocked
  · rw [hlock, h.locked]
    by_cases hd : d = c
    · subst hd
      constructor
      · rintro ⟨call, hcall', hlocking⟩
        rw [hcall] at hcall'
        cases hcall'
        exact hlocking.elim
      · rintro ⟨call, hcall', hlocking⟩
        rw [hself] at hcall'
        cases hcall'
        exact hlocking.elim
    · rw [hother d hd]

/-- Requests leave the map, nobody being still to register for them, and a call takes the lock to
notify their waiters. -/
theorem Served.leaves (h : Served s) {old new : Call} (hready : s.lock = none)
    (hcall : s.calls c = some old) (hlocking : new.Locking)
    (hkept : ∀ key r, s'.active key = some r → s.active key = some r ∧ ¬s.Owns c key)
    (hleft : ∀ key r, s.active key = some r →
      s'.active key = some r ∨ new.Holds r ∧ ∀ d, ¬s.Told d r)
    (hlock : s'.lock = some c) (hcalls : s'.calls = Function.update s.calls c (some new)) :
    Served s' := by
  have hself : s'.calls c = some new := by rw [hcalls, Function.update_self]
  have hother : ∀ d, d ≠ c → s'.calls d = s.calls d := fun d hd => by
    rw [hcalls, Function.update_of_ne hd]
  have hfree : ∀ d call, s.calls d = some call → ¬call.Locking := by
    intro d call hd hlocking
    have hlocked := (h.locked d).mpr ⟨call, hd, hlocking⟩
    rw [hready] at hlocked
    cases hlocked
  refine ⟨fun key r' hr => ?_, fun d r' htold => ?_, fun d r' hwaiting => ?_, fun d => ?_⟩
  · obtain ⟨hr, hnot⟩ := hkept key r' hr
    obtain ⟨d, howner⟩ := h.owned key r' hr
    have hd : d ≠ c := by
      rintro rfl
      exact hnot howner
    obtain ⟨query, phase, hcall', hkey⟩ := howner
    exact ⟨d, query, phase, (hother d hd).trans hcall', hkey⟩
  · obtain ⟨flow, query, hcall'⟩ := htold
    have hd : d ≠ c := by
      rintro rfl
      rw [hself] at hcall'
      cases hcall'
      exact hlocking
    have htold' : s.Told d r' := ⟨flow, query, (hother d hd).symm.trans hcall'⟩
    obtain ⟨key, hr⟩ := h.told d r' htold'
    rcases hleft key r' hr with hr' | ⟨-, hnone⟩
    · exact ⟨key, hr'⟩
    · exact absurd htold' (hnone d)
  · obtain ⟨flow, query, hcall'⟩ := hwaiting
    have hd : d ≠ c := by
      rintro rfl
      rw [hself] at hcall'
      cases hcall'
      exact hlocking
    rcases h.waiting d r' ⟨flow, query, (hother d hd).symm.trans hcall'⟩ with
      ⟨key, hr⟩ | ⟨e, call, he, hholds⟩
    · rcases hleft key r' hr with hr' | ⟨hholds, -⟩
      · exact .inl ⟨key, hr'⟩
      · exact .inr ⟨c, new, hself, hholds⟩
    · exact absurd hholds.locking (hfree e call he)
  · rw [hlock, Option.some_inj]
    constructor
    · rintro rfl
      exact ⟨new, hself, hlocking⟩
    · rintro ⟨call, hd, hlocking'⟩
      by_contra hne
      exact hfree d call ((hother d (Ne.symm hne)).symm.trans hd) hlocking'

/-- The call that holds the lock wakes the waiters of a request, or lets go of the lock when there is
none left. -/
theorem Served.notifies (h : Served s) {old new : Call} (hcall : s.calls c = some old)
    (hlocking : old.Locking) (hactive : ∀ key, s'.active key = s.active key)
    (hself : s'.calls c = some new)
    (hother : ∀ d, d ≠ c → s'.calls d = s.calls d ∨ s'.calls d = (s.wake r).calls d)
    (hwoken : ∀ d r', d ≠ c → s'.Waiting d r' → old.Holds r' → new.Holds r')
    (hnew : ∀ r', ¬s'.WaitsFor c r')
    (hlock : ∀ d, s'.lock = some d ↔ d = c ∧ new.Locking) : Served s' := by
  have honly : ∀ d call, s.calls d = some call → call.Locking → d = c := by
    intro d call hd hlocking'
    have hd' := (h.locked d).mpr ⟨call, hd, hlocking'⟩
    rw [(h.locked c).mpr ⟨old, hcall, hlocking⟩] at hd'
    exact (Option.some_inj.mp hd').symm
  have hnotOwner : ∀ key, ¬s.Owns c key := by
    rintro key ⟨query, phase, hcall', -, howning⟩
    rw [hcall] at hcall'
    cases hcall'
    cases phase <;> first | exact hlocking | exact howning
  refine ⟨fun key r' hr => ?_, fun d r' htold => ?_, fun d r' hwaiting => ?_, fun d => ?_⟩
  · rw [hactive] at hr
    obtain ⟨d, howner⟩ := h.owned key r' hr
    have hd : d ≠ c := by
      rintro rfl
      exact hnotOwner key howner
    rcases hother d hd with heq | heq
    · obtain ⟨query, phase, hcall', hkey⟩ := howner
      exact ⟨d, query, phase, heq.trans hcall', hkey⟩
    · obtain ⟨query, phase, hcall', hkey⟩ := owns_wake (r := r).mpr howner
      exact ⟨d, query, phase, heq.trans hcall', hkey⟩
  · simp only [hactive]
    have hd : d ≠ c := by
      rintro rfl
      exact hnew r' (.inl htold)
    obtain ⟨flow, query, hcall'⟩ := htold
    rcases hother d hd with heq | heq
    · exact h.told d r' ⟨flow, query, heq.symm.trans hcall'⟩
    · exact h.told d r' (told_wake.mp ⟨flow, query, heq.symm.trans hcall'⟩)
  · simp only [hactive]
    have hd : d ≠ c := by
      rintro rfl
      exact hnew r' (.inr hwaiting)
    have hwaiting' : s.Waiting d r' := by
      obtain ⟨flow, query, hcall'⟩ := hwaiting
      rcases hother d hd with heq | heq
      · exact ⟨flow, query, heq.symm.trans hcall'⟩
      · exact (waiting_wake.mp ⟨flow, query, heq.symm.trans hcall'⟩).1
    refine (h.waiting d r' hwaiting').imp_right ?_
    rintro ⟨e, call, he, hholds⟩
    obtain rfl := honly e call he hholds.locking
    rw [hcall] at he
    cases he
    exact ⟨e, new, hself, hwoken d r' hd hwaiting hholds⟩
  · rw [hlock]
    constructor
    · rintro ⟨rfl, hlocking'⟩
      exact ⟨new, hself, hlocking'⟩
    · rintro ⟨call, hd, hlocking'⟩
      by_cases hdc : d = c
      · subst hdc
        rw [hself] at hd
        cases hd
        exact ⟨rfl, hlocking'⟩
      · refine absurd (honly d call ?_ hlocking') hdc
        rcases hother d hdc with heq | heq
        · exact heq.symm.trans hd
        · exact (locking_wake hlocking').mp (heq.symm.trans hd)

/-- A turn of one call that leaves the map and the lock alone. -/
theorem Served.turnCall (h : Served s) {old new : Call} (hcall : s.calls c = some old)
    (hactive : ∀ key, s'.active key = s.active key) (hlock : s'.lock = s.lock)
    (hcalls : s'.calls = Function.update s.calls c (some new))
    (hold : ¬old.Locking) (hnew : ¬new.Locking)
    (htold : ∀ flow query r, new = .check flow query (.told r) → ∃ key, s.active key = some r)
    (hwaiting : ∀ flow query r, new = .check flow query (.waiting r) → ∃ key, s.active key = some r)
    (howns : ∀ query phase, old = .check .resolve query phase → phase.Owning →
      s.active query.cacheKey ≠ none → ∃ phase', new = .check .resolve query phase' ∧ phase'.Owning) :
    Served s' := by
  have hself : s'.calls c = some new := by rw [hcalls, Function.update_self]
  refine h.turn (c := c) hactive hlock (fun d hd => by rw [hcalls, Function.update_of_ne hd]) ?_ ?_ ?_ ?_
  · intro call hcall'
    rw [hcall] at hcall'
    cases hcall'
    exact hold
  · intro call hcall'
    rw [hself] at hcall'
    cases hcall'
    exact hnew
  · rintro r (⟨flow, query, hcall'⟩ | ⟨flow, query, hcall'⟩)
    · rw [hself] at hcall'
      exact htold flow query r (Option.some_inj.mp hcall')
    · rw [hself] at hcall'
      exact hwaiting flow query r (Option.some_inj.mp hcall')
  · rintro key r ⟨query, phase, hcall', rfl, howning⟩ hr
    rw [hcall] at hcall'
    obtain ⟨phase', rfl, howning'⟩ :=
      howns query phase (Option.some_inj.mp hcall') howning (by rw [hr]; simp)
    exact ⟨query, phase', hself, rfl, howning'⟩

/-- Only `resolve_permission` shares requests. -/
def Flowing (s : State) : Prop :=
  ∀ c flow query, s.calls c = some (.check flow query .tryDeduplicate) → flow = .resolve

/-- The phases in which a check neither waits nor holds the lock. -/
def Phase.Plain : Phase → Prop
  | .told _ => False
  | .waiting _ => False
  | .notify .. => False
  | _ => True

/-- A check goes on to a plain phase. -/
theorem Served.turnPlain (h : Served s) {flow : Flow} {query : Query} {phase phase' : Phase}
    (hcall : s.calls c = some (.check flow query phase))
    (hactive : ∀ key, s'.active key = s.active key) (hlock : s'.lock = s.lock)
    (hcalls : s'.calls = Function.update s.calls c (some (.check flow query phase')))
    (hold : ¬(Call.check flow query phase).Locking) (hplain : phase'.Plain)
    (howns : flow = .resolve → phase.Owning → s.active query.cacheKey ≠ none → phase'.Owning) :
    Served s' := by
  refine h.turnCall hcall hactive hlock hcalls hold ?_ ?_ ?_ ?_
  · cases phase' <;> first | exact id | exact hplain.elim
  · rintro _ _ r heq
    cases heq
    exact hplain.elim
  · rintro _ _ r heq
    cases heq
    exact hplain.elim
  · rintro _ _ heq howning hsome
    cases heq
    exact ⟨phase', rfl, howns rfl howning hsome⟩

/-- A turn of a check. -/
theorem Served.proceedCheck (h : Served s) {a : Answers} {flow : Flow} {query : Query} {phase : Phase}
    (hflow : Flowing s) (hcall : s.calls c = some (.check flow query phase)) (hready : s.Ready c)
    (hatt : Attended s (.proceed c a)) : Served (proceedCheck kit a s c flow query phase) := by
  have hlock : phase.Locks → s.lock = none := by
    intro hlocks
    rw [State.Ready, hcall] at hready
    cases phase <;> first | exact hready hlocks | exact hlocks.elim
  cases phase with
  | checkCache =>
    have hsame : ∀ key, (s.vault.cache.checkCache s.now query.cacheKey).2.activeRequests.lookup key =
        s.active key := by
      intro key
      rw [PermissionCache.checkCache]
      split
      · split <;> rfl
      · rfl
    simp only [Requests.proceedCheck]
    split
    all_goals
      next heq =>
        rw [heq] at hsame
        exact h.turnPlain hcall hsame rfl rfl id trivial fun _ howning => howning.elim
  | isRecentGrant =>
    simp only [Requests.proceedCheck]
    split
    · exact h.turnPlain hcall (fun _ => rfl) rfl rfl id trivial fun _ howning => howning.elim
    · refine h.turnPlain hcall (fun _ => rfl) rfl rfl id ?_ fun _ howning => howning.elim
      cases flow <;> trivial
  | tryDeduplicate =>
    obtain rfl := hflow c flow query hcall
    simp only [Requests.proceedCheck, PermissionCache.tryDeduplicate]
    cases hactive : s.vault.cache.activeRequests.lookup query.cacheKey with
    | some request =>
      refine h.turnCall hcall (fun _ => rfl) rfl rfl id id ?_ (by simp)
        (by rintro _ _ heq howning; cases heq; exact howning.elim)
      rintro _ _ r heq
      cases heq
      exact ⟨query.cacheKey, hactive⟩
    | none =>
      refine h.joins (r := s.vault.cache.nextRequest) (hlock trivial) hcall hactive ?_ rfl rfl
      intro key
      by_cases hkey : key = query.cacheKey
      · subst hkey
        rw [if_pos rfl]
        exact AList.lookup_insert _
      · rw [if_neg hkey]
        exact AList.lookup_insert_ne hkey
  | told request =>
    refine h.turnCall hcall (fun _ => rfl) rfl rfl id id (by simp) ?_
      (by rintro _ _ heq howning; cases heq; exact howning.elim)
    rintro _ _ r heq
    cases heq
    exact h.told c request ⟨flow, query, hcall⟩
  | waiting request => exact h
  | woken request =>
    exact h.turnPlain hcall (fun _ => rfl) rfl rfl id trivial fun _ howning => howning.elim
  | lookup =>
    rw [Requests.proceedCheck]
    split
    next e _ =>
      refine h.turnPlain hcall (fun _ => rfl) rfl rfl id trivial ?_
      rintro rfl - -
      exact ⟨_, List.mem_singleton_self _⟩
    next =>
      split
      · refine h.turnPlain hcall (fun _ => rfl) rfl rfl id trivial ?_
        rintro rfl - -
        exact ⟨.ok true, by simp [Flow.granted]⟩
      · exact h.turnPlain hcall (fun _ => rfl) rfl rfl id trivial fun _ _ _ => trivial
  | callback =>
    rw [Requests.proceedCheck]
    refine h.turnPlain hcall (fun _ => rfl) rfl rfl id ?_ ?_
    · split <;> trivial
    · rintro rfl - -
      split
      · trivial
      · exact ⟨.ok true, by simp [Flow.ephemeral]⟩
      · exact ⟨.ok false, by simp [Flow.denied]⟩
  | grant expiry =>
    refine h.turnPlain hcall (fun _ => rfl) rfl rfl id trivial ?_
    rintro rfl - -
    exact ⟨.ok true, by simp [Flow.granted]⟩
  | writes todo outcome =>
    cases todo with
    | nil =>
      refine h.turnPlain hcall (fun _ => rfl) rfl rfl id trivial ?_
      rintro - ⟨result, hmem⟩
      cases hmem
    | cons write todo =>
      cases write with
      | insertCache granted ttl =>
        refine h.turnPlain hcall (fun _ => rfl) rfl rfl id trivial ?_
        rintro - ⟨result, hmem⟩ -
        exact ⟨result, by simpa using hmem⟩
      | recordRecentGrant =>
        refine h.turnPlain hcall (fun _ => rfl) rfl rfl id trivial ?_
        rintro - ⟨result, hmem⟩ -
        exact ⟨result, by simpa using hmem⟩
      | completeRequest result =>
        rw [Requests.proceedCheck, PermissionCache.takeRequest]
        cases hactive : s.vault.cache.activeRequests.lookup query.cacheKey with
        | none =>
          exact h.turnPlain hcall (fun _ => rfl) rfl rfl id trivial
            fun _ _ hsome => absurd hactive hsome
        | some request =>
          simp only [Attended, hcall] at hatt
          have hlocking :
              (Call.check flow query (.notify request result todo outcome)).Locking := trivial
          refine h.leaves (hlock trivial) hcall hlocking ?_ ?_ rfl rfl
          · intro key r hr
            have hne : key ≠ query.cacheKey := by
              rintro rfl
              rw [State.active] at hr
              simp [State.setCall, State.setCache] at hr
            refine ⟨(AList.lookup_erase_ne hne).symm.trans hr, ?_⟩
            rintro ⟨query', phase', hcall', hkey, -⟩
            rw [hcall] at hcall'
            cases hcall'
            exact hne hkey.symm
          · intro key r hr
            by_cases hkey : key = query.cacheKey
            · subst hkey
              have hrequest : request = r := Option.some_inj.mp (hactive.symm.trans hr)
              exact .inr ⟨hrequest, hatt r hr⟩
            · exact .inl ((AList.lookup_erase_ne hkey).trans hr)
  | notify request result todo outcome =>
    have hne : ∀ d, d ≠ c → ((s.setCache (s.vault.cache.setResult request result)).setCall c
        (.check flow query (.writes todo outcome))).calls d = s.calls d := fun d hd =>
      State.calls_setCall_ne hd
    have hself : (Requests.proceedCheck kit a s c flow query (.notify request result todo outcome)).calls
        c = some (.check flow query (.writes todo outcome)) := by
      simp [Requests.proceedCheck, Call.wake]
    refine h.notifies (r := request) hcall trivial (fun _ => rfl) hself ?_ ?_ ?_ ?_
    · intro d hd
      right
      simp [Requests.proceedCheck, hne d hd]
    · rintro d r' hd hwaiting hholds
      exact absurd hholds.symm (waiting_wake.mp hwaiting).2
    · rintro r' (⟨flow', query', hcall'⟩ | ⟨flow', query', hcall'⟩)
      all_goals
        simp [Requests.proceedCheck, Call.wake] at hcall'
    · intro d
      simp [Requests.proceedCheck, Call.Locking]
  | returned outcome => exact h

/-- A check comes to `try_deduplicate` in one flow only. -/
theorem proceed_tryDeduplicate {a : Answers} {flow : Flow} {query : Query} (hready : s.Ready c)
    (h : (proceed kit a s c).calls c = some (.check flow query .tryDeduplicate)) :
    flow = .resolve := by
  rw [State.Ready] at hready
  rw [proceed] at h
  split at h
  next flow' query' phase hcall =>
    cases phase with
    | isRecentGrant =>
      simp only [proceedCheck] at h
      split at h
      · simp at h
      · cases flow' <;> simp_all
    | writes todo outcome =>
      cases todo with
      | nil => simp [proceedCheck] at h
      | cons write todo =>
        cases write <;> simp only [proceedCheck] at h
        · simp at h
        · simp at h
        · split at h <;> simp at h
    | notify => simp [proceedCheck, Call.wake] at h
    | callback =>
      simp only [proceedCheck] at h
      split at h <;> simp at h
    | waiting => simp [hcall, Call.Ready] at hready
    | returned => simp [hcall, Call.Ready] at hready
    | _ =>
      simp only [proceedCheck] at h
      (repeat' split at h) <;> simp at h
  all_goals simp_all [Call.wake]

theorem Flowing.step {a : Action} (h : Flowing s) (henabled : a.Enabled s) : Flowing (a.next kit s) := by
  intro d flow query hcall
  cases a with
  | ensure c flow' query' =>
    by_cases hd : d = c
    · subst hd
      cases flow' <;> simp [Action.next, Flow.start] at hcall
    · exact h d flow query ((State.calls_setCall_ne hd).symm.trans hcall)
  | clearCaches c =>
    by_cases hd : d = c
    · subst hd
      simp [Action.next] at hcall
    · exact h d flow query ((State.calls_setCall_ne hd).symm.trans hcall)
  | proceed c a =>
    by_cases hd : d = c
    · subst hd
      exact proceed_tryDeduplicate henabled.1 hcall
    · refine h d flow query ?_
      rcases proceed_other kit a s hd with heq | ⟨r, -, heq⟩
      · exact heq.symm.trans hcall
      · exact (map_wake_eq (by simp) (by simp)).mp (heq.symm.trans hcall)
  | cancel c =>
    by_cases hd : d = c
    · subst hd
      simp [Action.next] at hcall
    · refine h d flow query (Eq.trans ?_ hcall)
      simp only [Action.next, Function.update_of_ne hd]
  | pass => exact h d flow query hcall
  | grantPermission => exact h d flow query hcall
  | revokePermission => exact h d flow query hcall
  | revokeAllForOriginator => exact h d flow query hcall

/-- A call begins where there was none. -/
theorem Served.begins (h : Served s) {new : Call} (hnone : s.calls c = none) (hlocking : ¬new.Locking)
    (hwaits : ∀ r, ¬(s.setCall c new).WaitsFor c r) : Served (s.setCall c new) := by
  refine h.turn (c := c) (fun _ => rfl) rfl (fun d hd => State.calls_setCall_ne hd) ?_ ?_ ?_ ?_
  · intro call hcall
    rw [hnone] at hcall
    cases hcall
  · intro call hcall
    rw [State.calls_setCall_self] at hcall
    cases hcall
    exact hlocking
  · exact fun r hr => absurd hr (hwaits r)
  · rintro key r ⟨query, phase, hcall, -⟩
    rw [hnone] at hcall
    cases hcall

theorem Served.cancels (h : Served s) (hatt : Attended s (.cancel c)) :
    Served (Action.next kit s (.cancel c)) := by
  have hother : ∀ d, d ≠ c → (Action.next kit s (.cancel c)).calls d = s.calls d := fun d hd => by
    simp only [Action.next, Function.update_of_ne hd]
  have hself : (Action.next kit s (.cancel c)).calls c = none := by
    simp only [Action.next, Function.update_self]
  refine ⟨fun key r hr => ?_, fun d r htold => ?_, fun d r hwaiting => ?_, fun d => ?_⟩
  · obtain ⟨d, hd, query, phase, hcall, hkey⟩ : ∃ d, d ≠ c ∧ s.Owns d key := by
      obtain ⟨d, howner⟩ := h.owned key r hr
      by_cases hd : d = c
      · subst hd
        exact hatt.1 key r howner hr
      · exact ⟨d, hd, howner⟩
    exact ⟨d, query, phase, (hother d hd).trans hcall, hkey⟩
  · obtain ⟨flow, query, hcall⟩ := htold
    have hd : d ≠ c := by
      rintro rfl
      rw [hself] at hcall
      cases hcall
    exact h.told d r ⟨flow, query, (hother d hd).symm.trans hcall⟩
  · obtain ⟨flow, query, hcall⟩ := hwaiting
    have hd : d ≠ c := by
      rintro rfl
      rw [hself] at hcall
      cases hcall
    have hwaiting' : s.Waiting d r := ⟨flow, query, (hother d hd).symm.trans hcall⟩
    refine (h.waiting d r hwaiting').imp_right ?_
    rintro ⟨e, call, he, hholds⟩
    have hec : e ≠ c := by
      rintro rfl
      exact hatt.2 call r he hholds d (.inr hwaiting')
    exact ⟨e, call, (hother e hec).trans he, hholds⟩
  · by_cases hd : d = c
    · subst hd
      rw [hself]
      simp only [Action.next, reduceCtorEq, false_and, exists_false, iff_false]
      split
      · simp
      · assumption
    · rw [hother d hd, ← h.locked]
      simp only [Action.next]
      split
      next heq =>
        rw [heq, Option.some_inj]
        simp [Ne.symm hd]
      next => rfl

theorem Served.setInner (h : Served s) (inner : Inner) : Served (s.setInner inner) :=
  ⟨h.owned, h.told, h.waiting, h.locked⟩

/-- One action that meets the condition. -/
theorem Served.step {a : Action} (h : Served s) (hflow : Flowing s) (henabled : a.Enabled s)
    (hatt : Attended s a) : Served (a.next kit s) := by
  cases a with
  | ensure c flow query =>
    refine h.begins henabled (by cases flow <;> exact id) ?_
    rintro r (⟨flow', query', hcall⟩ | ⟨flow', query', hcall⟩)
    all_goals cases flow <;> simp [Flow.start] at hcall
  | clearCaches c =>
    refine h.begins henabled id ?_
    rintro r (⟨flow', query', hcall⟩ | ⟨flow', query', hcall⟩)
    all_goals simp at hcall
  | proceed c a =>
    obtain ⟨hready, -⟩ := henabled
    rw [Action.next, proceed]
    split
    next flow query phase hcall => exact h.proceedCheck hflow hcall hready hatt
    next hcall =>
      exact h.turnCall hcall (fun _ => rfl) rfl rfl id id (by simp) (by simp) (by simp)
    next hcall =>
      exact h.turnCall hcall (fun _ => rfl) rfl rfl id id (by simp) (by simp) (by simp)
    next hcall =>
      have hlock : s.lock = none := by
        rw [State.Ready, hcall] at hready
        exact hready
      simp only [Attended, hcall] at hatt
      have hlocking : (Call.drain (s.vault.cache.activeRequests.entries.map (·.2))).Locking := trivial
      refine h.leaves hlock hcall hlocking ?_ ?_ rfl rfl
      · intro key r hr
        simp [State.active, State.setCall, State.setCache] at hr
      · intro key r hr
        refine .inr ⟨?_, hatt key r hr⟩
        exact List.mem_map.mpr ⟨_, AList.mem_lookup_iff.mp hr, rfl⟩
    next request rest hcall =>
      have hne : ∀ d, d ≠ c → ((s.setCache (s.vault.cache.setResult request
          (.error "Cache cleared"))).setCall c (.drain rest)).calls d = s.calls d := fun d hd =>
        State.calls_setCall_ne hd
      have hself : (((s.setCache (s.vault.cache.setResult request (.error "Cache cleared"))).setCall c
          (.drain rest)).wake request).calls c = some (.drain rest) := by
        simp [Call.wake]
      refine h.notifies (r := request) hcall trivial (fun _ => rfl) hself ?_ ?_ ?_ ?_
      · intro d hd
        right
        simp [hne d hd]
      · rintro d r' hd hwaiting hholds
        exact (List.mem_cons.mp hholds).resolve_left (waiting_wake.mp hwaiting).2
      · rintro r' (⟨flow', query', hcall'⟩ | ⟨flow', query', hcall'⟩)
        all_goals simp [Call.wake] at hcall'
      · intro d
        have hlocked := (h.locked c).mpr ⟨_, hcall, trivial⟩
        show s.lock = some d ↔ _
        rw [hlocked, Option.some_inj]
        simp [Call.Locking, eq_comm]
    next hcall =>
      have hself : (s.setCall c .cleared).calls c = some .cleared := State.calls_setCall_self
      refine h.notifies (r := 0) hcall trivial (fun _ => rfl) hself ?_ ?_ ?_ ?_
      · exact fun d hd => .inl (State.calls_setCall_ne hd)
      · rintro d r' hd - hholds
        cases hholds
      · rintro r' (⟨flow', query', hcall'⟩ | ⟨flow', query', hcall'⟩)
        all_goals simp at hcall'
      · intro d
        simp [Call.Locking]
    next => exact h
  | cancel c => exact h.cancels hatt
  | pass => exact ⟨h.owned, h.told, h.waiting, h.locked⟩
  | grantPermission => exact h.setInner _
  | revokePermission => exact h.setInner _
  | revokeAllForOriginator => exact h.setInner _

theorem served_init : Served ({} : State) where
  owned key r hr := by simp [State.active] at hr
  told c r htold := by
    obtain ⟨flow, query, hcall⟩ := htold
    cases hcall
  waiting c r hwaiting := by
    obtain ⟨flow, query, hcall⟩ := hwaiting
    cases hcall
  locked c := by simp

theorem reaches_served (h : (requests kit).Reaches Attended s) : Served s := by
  refine (h.inv (I := fun s => Served s ∧ Flowing s) ⟨served_init, ?_⟩ ?_).1
  · intro c flow query hcall
    cases hcall
  · rintro s a ⟨hserved, hflow⟩ henabled hatt
    exact ⟨hserved.step hflow henabled hatt, hflow.step henabled⟩

/-! ## Every waiter can be woken -/

/-- The answers that bring a check to its end: the lookup fails, and nobody grants. -/
def plainAnswers (now : Nat) : Answers where
  now := now
  month := ""
  listOutputs _ := some (.inner "unavailable")
  listActions := none
  grantToken := .error (.inner "unavailable")
  metadata := none
  callback := none

variable (kit) in
/-- The states that turns of calls lead to. -/
def Turns (s s' : State) : Prop :=
  ((requests kit).startingAt s).Reaches (fun _ a => a.IsTurn) s'

theorem Turns.trans {s'' : State} (h : Turns kit s s') (h' : Turns kit s' s'') : Turns kit s s'' :=
  System.Reaches.trans h h'

theorem turn (kit : Kit) (h : s.Ready c) : Turns kit s (proceed kit (plainAnswers s.now) s c) :=
  System.startingAt_step (m := requests kit) (a := .proceed c (plainAnswers s.now)) ⟨h, rfl⟩ trivial

theorem turn_check {flow : Flow} {query : Query} {phase : Phase}
    (hcall : s.calls c = some (.check flow query phase)) (hready : s.Ready c)
    (hstep : proceedCheck kit (plainAnswers s.now) s c flow query phase = s') : Turns kit s s' := by
  have hturn := turn kit hready
  rw [proceed, hcall] at hturn
  exact hstep ▸ hturn

/-- What turns of a call that holds the lock leave to the others. -/
structure Onward (s s' : State) : Prop where
  active : ∀ key, s'.active key = s.active key
  owns : ∀ d key, s.Owns d key → s'.Owns d key
  woken : ∀ d r, s.Woken d r → s'.Woken d r
  waiting : ∀ d r, s.Waiting d r → s'.Waiting d r ∨ s'.Woken d r

theorem Onward.trans {s'' : State} (h : Onward s s') (h' : Onward s' s'') : Onward s s'' where
  active key := (h'.active key).trans (h.active key)
  owns d key howns := h'.owns d key (h.owns d key howns)
  woken d r hwoken := h'.woken d r (h.woken d r hwoken)
  waiting d r hwaiting := by
    rcases h.waiting d r hwaiting with hwaiting | hwoken
    · exact h'.waiting d r hwaiting
    · exact .inr (h'.woken d r hwoken)

theorem onward_wake (hactive : ∀ key, s'.active key = s.active key) (hcalls : s'.calls = (s.wake r).calls) :
    Onward s s' where
  active := hactive
  owns d key howns := by
    obtain ⟨query, phase, hcall, hkey⟩ := owns_wake (r := r).mpr howns
    exact ⟨query, phase, by rw [hcalls, hcall], hkey⟩
  woken d r' hwoken := by
    obtain ⟨flow, query, hcall⟩ := hwoken.wake (r := r)
    exact ⟨flow, query, by rw [hcalls, hcall]⟩
  waiting d r' hwaiting := by
    by_cases hr : r' = r
    · subst hr
      obtain ⟨flow, query, hcall⟩ := woken_wake hwaiting
      exact .inr ⟨flow, query, by rw [hcalls, hcall]⟩
    · obtain ⟨flow, query, hcall⟩ := waiting_wake.mpr ⟨hwaiting, hr⟩
      exact .inl ⟨flow, query, by rw [hcalls, hcall]⟩

/-- The call that holds the lock goes on itself. -/
theorem onward_setCall {old new : Call} (hcall : s.calls c = some old) (hlocking : old.Locking)
    (hactive : ∀ key, s'.active key = s.active key)
    (hcalls : s'.calls = Function.update s.calls c (some new)) : Onward s s' := by
  have hother : ∀ d call, s.calls d = some call → ¬call.Locking → s'.calls d = some call := by
    intro d call hd hnot
    rw [hcalls, Function.update_of_ne, hd]
    rintro rfl
    rw [hcall] at hd
    cases hd
    exact hnot hlocking
  refine ⟨hactive, ?_, ?_, ?_⟩
  · rintro d key ⟨query, phase, hd, hkey, howning⟩
    refine ⟨query, phase, hother d _ hd ?_, hkey, howning⟩
    cases phase <;> first | exact id | exact howning.elim
  · rintro d r ⟨flow, query, hd⟩
    exact ⟨flow, query, hother d _ hd id⟩
  · rintro d r ⟨flow, query, hd⟩
    exact .inl ⟨flow, query, hother d _ hd id⟩

/-- A call that holds the lock can let go of it, and then every waiter of what it holds is awake. -/
theorem release_drain (kit : Kit) {requests : List Nat} (hcall : s.calls c = some (.drain requests)) :
    ∃ s', Turns kit s s' ∧ s'.lock = none ∧ Onward s s' ∧
      ∀ d, ∀ r ∈ requests, s.Waiting d r → s'.Woken d r := by
  induction requests generalizing s with
  | nil =>
    have hstep : proceed kit (plainAnswers s.now) s c = { s.setCall c .cleared with lock := none } := by
      rw [proceed, hcall]
    refine ⟨_, turn kit (c := c) (by rw [State.Ready, hcall]; trivial), ?_, ?_, by simp⟩
    · rw [hstep]
    · rw [hstep]
      exact onward_setCall hcall trivial (fun _ => rfl) rfl
  | cons request rest ih =>
    have hstep : proceed kit (plainAnswers s.now) s c =
        ((s.setCache (s.vault.cache.setResult request (.error "Cache cleared"))).setCall c
          (.drain rest)).wake request := by
      rw [proceed, hcall]
    have hfirst : Onward s (proceed kit (plainAnswers s.now) s c) := by
      have hset : Onward s ((s.setCache (s.vault.cache.setResult request
          (.error "Cache cleared"))).setCall c (.drain rest)) :=
        onward_setCall hcall trivial (fun _ => rfl) rfl
      rw [hstep]
      exact hset.trans (onward_wake (fun _ => rfl) rfl)
    have hself : (proceed kit (plainAnswers s.now) s c).calls c = some (.drain rest) := by
      rw [hstep]
      simp [Call.wake]
    obtain ⟨s', hturns, hlock, honward, hwoken⟩ := ih hself
    refine ⟨s', (turn kit (by rw [State.Ready, hcall]; trivial)).trans hturns, hlock,
      hfirst.trans honward, ?_⟩
    intro d r hmem hwaiting
    rcases hfirst.waiting d r hwaiting with hwaiting' | hwoken'
    · rcases List.mem_cons.mp hmem with rfl | hmem
      · rw [hstep] at hwaiting'
        exact absurd rfl (waiting_wake.mp hwaiting').2
      · exact hwoken d r hmem hwaiting'
    · exact honward.woken d r hwoken'

theorem release (kit : Kit) {old : Call} (hcall : s.calls c = some old) (hlocking : old.Locking) :
    ∃ s', Turns kit s s' ∧ s'.lock = none ∧ Onward s s' ∧
      ∀ d r, old.Holds r → s.Waiting d r → s'.Woken d r := by
  cases old with
  | drain requests =>
    obtain ⟨s', hturns, hlock, honward, hwoken⟩ := release_drain kit hcall
    exact ⟨s', hturns, hlock, honward, hwoken⟩
  | check flow query phase =>
    cases phase with
    | notify request result todo outcome =>
      have hstep : proceed kit (plainAnswers s.now) s c =
          { ((s.setCache (s.vault.cache.setResult request result)).setCall c
              (.check flow query (.writes todo outcome))).wake request with
            lock := none } := by
        rw [proceed, hcall]
        rfl
      have honward : Onward s (proceed kit (plainAnswers s.now) s c) := by
        have hset : Onward s ((s.setCache (s.vault.cache.setResult request result)).setCall c
            (.check flow query (.writes todo outcome))) :=
          onward_setCall hcall trivial (fun _ => rfl) rfl
        rw [hstep]
        exact hset.trans (onward_wake (fun _ => rfl) rfl)
      refine ⟨_, turn kit (c := c) (by rw [State.Ready, hcall]; exact fun h => h.elim), ?_, honward, ?_⟩
      · rw [hstep]
      · rintro d r rfl hwaiting
        rcases honward.waiting d _ hwaiting with hwaiting' | hwoken
        · rw [hstep] at hwaiting'
          exact absurd rfl (waiting_wake.mp hwaiting').2
        · exact hwoken
    | _ => exact hlocking.elim
  | _ => exact hlocking.elim

theorem State.Waiting.kept {o : Option Call} (h : s.Waiting d r) (hd : d ≠ c)
    (hcalls : s'.calls = Function.update s.calls c o) : s'.Waiting d r := by
  obtain ⟨flow, query, hcall⟩ := h
  exact ⟨flow, query, by rw [hcalls, Function.update_of_ne hd, hcall]⟩

theorem State.Waiting.ne {flow : Flow} {query : Query} {phase : Phase} (h : s.Waiting d r)
    (hcall : s.calls c = some (.check flow query phase)) (hphase : phase.Owning) : d ≠ c := by
  rintro rfl
  obtain ⟨flow', query', hcall'⟩ := h
  rw [hcall] at hcall'
  cases hcall'
  exact hphase

/-- The first caller of a request can complete it. -/
theorem completes_writes {flow : Flow} {query : Query} {todo : List Write}
    {outcome : Except SdkError Unit} {result : Except String Bool} (hlock : s.lock = none)
    (hcall : s.calls c = some (.check flow query (.writes todo outcome)))
    (hmem : .completeRequest result ∈ todo) (hactive : s.active query.cacheKey = some r)
    (hwaiting : s.Waiting d r) : ∃ s', Turns kit s s' ∧ s'.Woken d r := by
  induction todo generalizing s with
  | nil => cases hmem
  | cons write todo ih =>
    have hd : d ≠ c := hwaiting.ne hcall ⟨result, hmem⟩
    have hready : s.Ready c := by
      rw [State.Ready, hcall]
      exact fun _ => hlock
    cases write with
    | insertCache granted ttl =>
      obtain ⟨s', hturns, hwoken⟩ := ih
        (s := (s.setCache (s.vault.cache.insertCache s.now query.cacheKey granted ttl)).setCall c
          (.check flow query (.writes todo outcome)))
        hlock State.calls_setCall_self (by simpa using hmem) hactive (hwaiting.kept hd rfl)
      exact ⟨s', (turn_check hcall hready rfl).trans hturns, hwoken⟩
    | recordRecentGrant =>
      obtain ⟨s', hturns, hwoken⟩ := ih
        (s := (s.setCache (s.vault.cache.recordRecentGrant s.now query.cacheKey)).setCall c
          (.check flow query (.writes todo outcome)))
        hlock State.calls_setCall_self (by simpa using hmem) hactive (hwaiting.kept hd rfl)
      exact ⟨s', (turn_check hcall hready rfl).trans hturns, hwoken⟩
    | completeRequest result' =>
      have hstep : proceedCheck kit (plainAnswers s.now) s c flow query
          (.writes (.completeRequest result' :: todo) outcome) =
          { (s.setCache { s.vault.cache with
              activeRequests := s.vault.cache.activeRequests.erase query.cacheKey }).setCall c
              (.check flow query (.notify r result' todo outcome)) with
            lock := some c } := by
        rw [State.active] at hactive
        simp only [proceedCheck, PermissionCache.takeRequest, hactive, Option.map_some]
      obtain ⟨s', hturns, -, -, hwoken⟩ := release kit
        (s := { (s.setCache { s.vault.cache with
              activeRequests := s.vault.cache.activeRequests.erase query.cacheKey }).setCall c
              (.check flow query (.notify r result' todo outcome)) with
            lock := some c }) State.calls_setCall_self trivial
      exact ⟨s', (turn_check hcall hready hstep).trans hturns, hwoken d r rfl (hwaiting.kept hd rfl)⟩

theorem completes (hlock : s.lock = none) (howns : s.Owns c key) (hactive : s.active key = some r)
    (hwaiting : s.Waiting d r) : ∃ s', Turns kit s s' ∧ s'.Woken d r := by
  obtain ⟨query, phase, hcall, rfl, howning⟩ := howns
  have hd : d ≠ c := hwaiting.ne hcall howning
  cases phase with
  | lookup =>
    have hready : s.Ready c := by
      rw [State.Ready, hcall]
      exact fun _ => hlock
    obtain ⟨s', hturns, hwoken⟩ := completes_writes
      (s := s.setCall c (.check .resolve query
        (.writes (Flow.resolve.failed (.inner "unavailable")) (.error (.inner "unavailable")))))
      hlock State.calls_setCall_self (List.mem_singleton_self _) hactive (hwaiting.kept hd rfl)
    exact ⟨s', (turn_check hcall hready rfl).trans hturns, hwoken⟩
  | callback =>
    have hready : s.Ready c := by
      rw [State.Ready, hcall]
      exact fun _ => hlock
    obtain ⟨s', hturns, hwoken⟩ := completes_writes
      (s := s.setCall c (.check .resolve query (.writes Flow.resolve.denied
        (.error (.notImplemented "No permission callback registered")))))
      hlock State.calls_setCall_self (List.mem_cons_of_mem _ (List.mem_singleton_self _)) hactive
      (hwaiting.kept hd rfl)
    exact ⟨s', (turn_check hcall hready rfl).trans hturns, hwoken⟩
  | grant expiry =>
    have hready : s.Ready c := by
      rw [State.Ready, hcall]
      exact fun _ => hlock
    obtain ⟨s', hturns, hwoken⟩ := completes_writes
      (s := (s.setInner s.vault.inner).setCall c
        (.check .resolve query (.writes Flow.resolve.granted (.ok ())))) hlock
      State.calls_setCall_self
      (show Write.completeRequest (.ok true) ∈ Flow.resolve.granted by simp [Flow.granted]) hactive
      (hwaiting.kept hd rfl)
    exact ⟨s', (turn_check hcall hready rfl).trans hturns, hwoken⟩
  | writes todo outcome =>
    obtain ⟨result, hmem⟩ := howning
    exact completes_writes hlock hcall hmem hactive hwaiting
  | _ => exact howning.elim

/-- From a state of such a run every waiter can be woken by turns of the calls. -/
theorem Served.wakes (h : Served s) (hwaits : s.WaitsFor c r) :
    ∃ s', Turns kit s s' ∧ s'.Woken c r := by
  -- Registering is a turn of its own.
  have hregistered : ∀ s, Served s → s.Waiting c r → ∃ s', Turns kit s s' ∧ s'.Woken c r := by
    intro s h hwaiting
    rcases hlock : s.lock with _ | holder
    · rcases h.waiting c r hwaiting with ⟨key, hactive⟩ | ⟨e, call, he, hholds⟩
      · obtain ⟨owner, howns⟩ := h.owned key r hactive
        exact completes hlock howns hactive hwaiting
      · rw [(h.locked e).mpr ⟨call, he, hholds.locking⟩] at hlock
        cases hlock
    · obtain ⟨call, hcall, hlocking⟩ := (h.locked holder).mp hlock
      obtain ⟨s₁, hturns, hlock₁, honward, hwoken⟩ := release kit hcall hlocking
      rcases honward.waiting c r hwaiting with hwaiting₁ | hwoken₁
      · rcases h.waiting c r hwaiting with ⟨key, hactive⟩ | ⟨e, call', he, hholds⟩
        · obtain ⟨owner, howns⟩ := h.owned key r hactive
          obtain ⟨s', hturns', hwoken'⟩ := completes hlock₁ (honward.owns owner key howns)
            ((honward.active key).trans hactive) hwaiting₁
          exact ⟨s', hturns.trans hturns', hwoken'⟩
        · have hsame : e = holder := Option.some_inj.mp
            (((h.locked e).mpr ⟨call', he, hholds.locking⟩).symm.trans hlock)
          subst hsame
          rw [hcall] at he
          cases he
          exact ⟨s₁, hturns, hwoken c r hholds hwaiting⟩
      · exact ⟨s₁, hturns, hwoken₁⟩
  rcases hwaits with htold | hwaiting
  · obtain ⟨flow, query, hcall⟩ := htold
    have hready : s.Ready c := by
      rw [State.Ready, hcall]
      exact fun h => h.elim
    have hserved : Served (s.setCall c (.check flow query (.waiting r))) := by
      refine h.turnCall hcall (fun _ => rfl) rfl rfl id id (by simp) ?_
        (by rintro _ _ heq howning; cases heq; exact howning.elim)
      rintro _ _ r' heq
      cases heq
      exact h.told c r ⟨flow, query, hcall⟩
    obtain ⟨s', hturns, hwoken⟩ := hregistered _ hserved ⟨flow, query, State.calls_setCall_self⟩
    exact ⟨s', (turn_check hcall hready rfl).trans hturns, hwoken⟩
  · exact hregistered s h hwaiting

/-- Where every request leaves the map after those who were told to wait have registered, and no
call is dropped that has yet to notify them, nobody is stuck: turns of the calls alone wake every
waiter. -/
theorem no_stuck_waiter (h : (requests kit).Reaches Attended s) :
    ¬Stuck kit (fun _ a => a.IsTurn) s c := by
  rintro ⟨r, hwaits, hnever⟩
  obtain ⟨s', hturns, hwoken⟩ := (reaches_served h).wakes hwaits
  exact hnever s' hturns hwoken

/-! ## Requests that are gone -/

/-- A request that is out of the map, that no call holds to notify, and that has woken nobody who has
not gone on. -/
structure Gone (s : State) (r : Nat) : Prop where
  allocated : r < s.vault.cache.nextRequest
  inactive : ∀ key, s.active key ≠ some r
  unheld : ¬s.Held r
  asleep : ∀ c, ¬s.Woken c r

theorem Gone.setInner (h : Gone s r) (inner : Inner) : Gone (s.setInner inner) r :=
  ⟨h.allocated, h.inactive, h.unheld, h.asleep⟩

/-- A request that is gone stays gone. -/
theorem Gone.step {a : Action} (h : Gone s r) (henabled : a.Enabled s) : Gone (a.next kit s) r := by
  -- A call that begins, or a change outside the calls and the requests.
  have hbegins : ∀ c new, ¬Call.Holds r new → (∀ flow query, new ≠ .check flow query (.woken r)) →
      Gone (s.setCall c new) r := by
    intro c new hholds hwoken
    refine ⟨h.allocated, h.inactive, ?_, ?_⟩
    · rintro ⟨d, call, hd, hcall⟩
      by_cases hdc : d = c
      · subst hdc
        rw [State.calls_setCall_self] at hd
        cases hd
        exact hholds hcall
      · exact h.unheld ⟨d, call, (State.calls_setCall_ne hdc).symm.trans hd, hcall⟩
    · rintro d ⟨flow, query, hd⟩
      by_cases hdc : d = c
      · subst hdc
        rw [State.calls_setCall_self] at hd
        exact hwoken flow query (Option.some_inj.mp hd)
      · exact h.asleep d ⟨flow, query, (State.calls_setCall_ne hdc).symm.trans hd⟩
  cases a with
  | ensure c flow query => exact hbegins c _ (by cases flow <;> exact id) (by cases flow <;> simp [Flow.start])
  | clearCaches c => exact hbegins c _ id (by simp)
  | proceed c a =>
    have hturned := (proceed_requests kit a henabled.1).turned
    refine ⟨h.allocated.trans_le hturned.next, fun key hr => ?_, ?_, ?_⟩
    · rcases hturned.active key r hr with hr | hr
      · exact h.inactive key hr
      · exact absurd h.allocated (hr ▸ lt_irrefl _)
    · rintro ⟨d, call, hd, hholds⟩
      by_cases hdc : d = c
      · subst hdc
        rcases hturned.holds call r hd hholds with ⟨key, hr⟩ | hheld
        · exact h.inactive key hr
        · exact h.unheld hheld
      · rcases proceed_other kit a s hdc with heq | ⟨r', -, heq⟩
        · exact h.unheld ⟨d, call, heq.symm.trans hd, hholds⟩
        · exact h.unheld ⟨d, call, (locking_wake hholds.locking).mp (heq.symm.trans hd), hholds⟩
    · rintro d hwoken
      by_cases hdc : d = c
      · subst hdc
        exact hturned.woken r hwoken
      · obtain ⟨flow, query, hd⟩ := hwoken
        rcases proceed_other kit a s hdc with heq | ⟨r', hheld, heq⟩
        · exact h.asleep d ⟨flow, query, heq.symm.trans hd⟩
        · rcases woken_of_wake ⟨flow, query, heq.symm.trans hd⟩ with hwoken | rfl
          · exact h.asleep d hwoken
          · exact h.unheld hheld
  | cancel c =>
    have hkept : ∀ d call, (Action.next kit s (.cancel c)).calls d = some call →
        s.calls d = some call := by
      intro d call hd
      by_cases hdc : d = c
      · subst hdc
        simp [Action.next] at hd
      · simpa only [Action.next, Function.update_of_ne hdc] using hd
    refine ⟨h.allocated, h.inactive, ?_, ?_⟩
    · rintro ⟨d, call, hd, hholds⟩
      exact h.unheld ⟨d, call, hkept d call hd, hholds⟩
    · rintro d ⟨flow, query, hd⟩
      exact h.asleep d ⟨flow, query, hkept d _ hd⟩
  | pass => exact ⟨h.allocated, h.inactive, h.unheld, h.asleep⟩
  | grantPermission => exact h.setInner _
  | revokePermission => exact h.setInner _
  | revokeAllForOriginator => exact h.setInner _

/-- Who waits for a request that is gone is never woken. -/
theorem Gone.stuck (h : Gone s r) (hwaits : s.WaitsFor c r) : Stuck kit (fun _ _ => True) s c := by
  refine ⟨r, hwaits, fun s' hreach => ?_⟩
  exact (hreach.inv (I := fun s => Gone s r) h fun s a hgone henabled _ => hgone.step henabled).asleep c

/-! ## A run -/

/-- The first turns of a check: the two caches, and the map of active requests. -/
def arrive (c : Nat) : List Action :=
  [.ensure c .resolve todoQuery, .proceed c (plainAnswers 0), .proceed c (plainAnswers 0),
    .proceed c (plainAnswers 0)]

/-- One check resolves a request and another one is told to wait for it. -/
def shared : State := (requests sampleKit).after {} (arrive 0 ++ arrive 1)

/-- The first check fails its lookup and completes the request before the second has registered. -/
def missed : State :=
  (requests sampleKit).after shared
    [.proceed 0 (plainAnswers 0), .proceed 0 (plainAnswers 0), .proceed 0 (plainAnswers 0)]

/-- A step that takes no request out of the map and drops no call. -/
def Keeps (s : State) : Action → Bool
  | .proceed c _ =>
    match s.calls c with
    | some (.check _ _ (.writes (.completeRequest _ :: _) _)) => false
    | some .clearActive => false
    | _ => true
  | .cancel _ => false
  | _ => true

theorem attended_of_keeps {a : Action} (h : Keeps s a = true) : Attended s a := by
  cases a with
  | proceed c a =>
    rw [Keeps] at h
    rw [Attended]
    split
    · simp_all
    · simp_all
    · trivial
  | cancel c => cases h
  | _ => trivial

/-- The second check has been told to wait, and it can still be woken. -/
theorem no_stuck_waiter_shared :
    shared.Told 1 0 ∧ ¬Stuck sampleKit (fun _ a => a.IsTurn) shared 1 := by
  have hallows : (requests sampleKit).Allows (fun s a => Keeps s a = true) {} (arrive 0 ++ arrive 1) := by
    decide +kernel
  have hreach : (requests sampleKit).Reaches Attended shared :=
    (System.Reaches.after .init hallows).mono fun s a => attended_of_keeps
  exact ⟨⟨.resolve, todoQuery, rfl⟩, no_stuck_waiter hreach⟩

theorem missed_gone : Gone missed 0 := by
  have hfirst : missed.calls 0 = some (.check .resolve todoQuery
      (.writes [] (.error (.inner "unavailable")))) := rfl
  have hsecond : missed.calls 1 = some (.check .resolve todoQuery (.told 0)) := rfl
  have hothers : ∀ c, missed.calls (c + 2) = none := fun c => rfl
  have hempty : missed.vault.cache.activeRequests.entries = [] := rfl
  refine ⟨by decide +kernel, fun key hr => ?_, ?_, ?_⟩
  · rw [State.active, AList.lookup, hempty] at hr
    cases hr
  · rintro ⟨c, call, hcall, hholds⟩
    rcases c with _ | _ | c
    · rw [hfirst] at hcall
      cases hcall
      exact hholds
    · rw [hsecond] at hcall
      cases hcall
      exact hholds
    · rw [hothers] at hcall
      cases hcall
  · rintro c ⟨flow, query, hcall⟩
    rcases c with _ | _ | c
    · rw [hfirst] at hcall
      cases hcall
    · rw [hsecond] at hcall
      cases hcall
    · rw [hothers] at hcall
      cases hcall

/-- A check that has not registered when its request is completed waits for ever. -/
theorem late_waiter_stuck :
    ¬∀ kit s, (requests kit).Reaches (fun _ _ => True) s → ∀ c, ¬Stuck kit (fun _ _ => True) s c := by
  intro h
  have hshared : (requests sampleKit).Reaches (fun _ _ => True) shared :=
    System.Reaches.after .init (by decide +kernel)
  have hmissed : (requests sampleKit).Reaches (fun _ _ => True) missed :=
    hshared.after (by decide +kernel)
  exact h sampleKit missed hmissed 1 (missed_gone.stuck (.inl ⟨.resolve, todoQuery, rfl⟩))

end WalletToolbox.Permissions.Requests
