import WalletToolbox.Laws.Statements
import WalletToolbox.Monitor.TaskReorg

/-! # Deactivated headers are conserved

A header that was pushed stays in the queue or the process list until its turn is its last one.
Two exits of the loop forget it: a search for its proofs that fails, and a push back to a queue
whose lock is taken. -/

namespace WalletToolbox.Reorg

open WalletToolbox.Lib WalletToolbox.Storage

/-! ## One turn of the loop -/

/-- One proof: nothing is written, or a new answer's height and hash are. -/
theorem run_reproveRow (services : Services) (fault : Option String) (ptx : ProvenTx) (s : Store) :
    ∃ outcome s', (reproveRow services fault ptx).run Stmt.exec s = (.ok outcome, s') ∧
      (s' = s ∨ fault = none ∧ ∃ merklePath newHeader n,
        (services.getMerklePath ptx.txid).merklePath = some merklePath ∧
        (services.getMerklePath ptx.txid).header = some newHeader ∧
        Stmt.exec (.updateProvenTx ptx.provenTxId
          { height := some newHeader.height, blockHash := some newHeader.hash }) s = .ok (n, s')) := by
  unfold reproveRow
  split
  · rename_i merklePath newHeader hpath hheader
    cases fault with
    | some e => exact ⟨_, s, rfl, .inl rfl⟩
    | none =>
      cases hexec : Stmt.exec (.updateProvenTx ptx.provenTxId
          { height := some newHeader.height, blockHash := some newHeader.hash }) s with
      | ok r =>
        refine ⟨.updated, r.2, ?_, .inr ⟨rfl, merklePath, newHeader, r.1, hpath, hheader, hexec⟩⟩
        simp only [Prog.run_bind, Prog.run_attempt, exec, Prog.run_exec_ok hexec]
        rfl
      | error e =>
        refine ⟨.failed, s, ?_, .inl rfl⟩
        simp only [Prog.run_bind, Prog.run_attempt, exec, Prog.run_exec_error hexec]
        rfl
  · exact ⟨_, s, rfl, .inl rfl⟩

/-- Every proof of the list has its outcome, in the order of the list. -/
theorem run_reproveRows (services : Services) (faults : Faults) (provenTxs : List ProvenTx)
    (s : Store) : ∃ rows s', (reproveRows services faults provenTxs).run Stmt.exec s = (.ok rows, s') ∧
      rows.map Prod.fst = provenTxs := by
  suffices h : ∀ (done : List (ProvenTx × RowOutcome)) (s : Store), ∃ rows s',
      (provenTxs.foldlM (fun rows ptx => do
        let outcome ← reproveRow services (faults.update ptx.provenTxId) ptx
        pure (rows ++ [(ptx, outcome)])) done : StorageProg _).run Stmt.exec s = (.ok rows, s') ∧
      rows.map Prod.fst = done.map Prod.fst ++ provenTxs by
    obtain ⟨rows, s', hrun, hrows⟩ := h [] s
    exact ⟨rows, s', hrun, hrows⟩
  induction provenTxs with
  | nil => exact fun done s => ⟨done, s, rfl, (List.append_nil _).symm⟩
  | cons ptx rest ih =>
    intro done s
    obtain ⟨outcome, s₁, hrow, -⟩ := run_reproveRow services (faults.update ptx.provenTxId) ptx s
    obtain ⟨rows, s', hrun, hrows⟩ := ih (done ++ [(ptx, outcome)]) s₁
    refine ⟨rows, s', ?_, ?_⟩
    · rw [List.foldlM_cons, bind_assoc, Prog.run_bind_of_ok hrow]
      exact hrun
    · rw [hrows, List.map_append, List.append_assoc]
      rfl

theorem run_processHeader (services : Services) {faults : Faults} (hfind : faults.find = none)
    (hash : String) (s : Store) :
    ∃ rows s', (processHeader services faults hash).run Stmt.exec s = (.ok (.found rows), s') ∧
      rows.map Prod.fst = s.provenTxs.find (·.blockHash == hash) := by
  obtain ⟨rows, s', hrun, hrows⟩ :=
    run_reproveRows services faults (s.provenTxs.find (·.blockHash == hash)) s
  refine ⟨rows, s', ?_, hrows⟩
  simp only [processHeader, hfind]
  exact Prog.run_bind_of_ok hrun

/-! ## What is conserved -/

/-- The headers of the queue and of the process list. -/
def State.held (s : State) : List Tracked := s.deactivatedHeaders ++ s.process

/-- A header is done when no stored proof names its block, when every such proof was updated, or
when its tries are used up. -/
def Finished.Justified (cfg : Config) (f : Finished) : Prop :=
  f.named = [] ∨ (f.rows.map Prod.fst = f.named ∧ ∀ row ∈ f.rows, row.2 = .updated) ∨
    cfg.maxRetries ≤ f.header.tries + 1

/-- The header of a push is in the queue or the process list, with one more try for each turn that
it had, or it is done. -/
def State.Remembers (cfg : Config) (s : State) (origin : Nat) (pushed : DeactivatedHeader) : Prop :=
  (∃ t ∈ s.held, t.origin = origin ∧ t.header.header = pushed.header ∧
    t.header.tries = pushed.tries + s.turns.count origin) ∨
  ∃ f ∈ s.finished, f.origin = origin ∧ f.header.header = pushed.header ∧ f.Justified cfg

/-- The search for the proofs does not fail and the queue is free when a header is pushed back. -/
def Steady : State → Action → Prop
  | _, .turn _ faults _ locked => faults.find = none ∧ locked = false
  | _, _ => True

instance : ∀ (s : State) (a : Action), Decidable (Steady s a)
  | _, .turn _ faults _ locked => inferInstanceAs (Decidable (faults.find = none ∧ locked = false))
  | _, .push _ => isTrue trivial
  | _, .trigger _ _ => isTrue trivial
  | _, .write _ => isTrue trivial

structure State.Conserves (cfg : Config) (s : State) : Prop where
  origins : (s.held.map Tracked.origin).Nodup
  bound : ∀ t ∈ s.held, t.origin < s.pushed.length
  turned : ∀ origin ∈ s.turns, origin < s.pushed.length
  remembers : ∀ origin pushed, s.pushed[origin]? = some pushed → s.Remembers cfg origin pushed

variable {cfg : Config}

/-- A step that only moves headers between the two lists. -/
theorem State.Conserves.shuffle {s s' : State} (h : s.Conserves cfg) (hheld : s'.held.Perm s.held)
    (hpushed : s'.pushed = s.pushed) (hturns : s'.turns = s.turns)
    (hfinished : s'.finished = s.finished) : s'.Conserves cfg where
  origins := (hheld.map _).nodup_iff.mpr h.origins
  bound := by
    intro t ht
    rw [hpushed]
    exact h.bound t (hheld.mem_iff.mp ht)
  turned := by
    rw [hpushed, hturns]
    exact h.turned
  remembers := by
    intro origin pushed hp
    rw [hpushed] at hp
    rcases h.remembers origin pushed hp with ⟨t, ht, hmatch⟩ | hdone
    · exact .inl ⟨t, hheld.mem_iff.mpr ht, hturns ▸ hmatch⟩
    · exact .inr (hfinished ▸ hdone)

theorem State.shift_held (cfg : Config) (now : Nat) (locked : Bool) (s : State) :
    (s.shift cfg now locked).held.Perm s.held := by
  unfold State.shift
  cases locked with
  | true => exact .refl _
  | false =>
    simp only [State.held, Bool.false_eq_true, if_false]
    refine (List.perm_append_comm.trans ?_).trans List.perm_append_comm
    rw [List.append_assoc]
    exact (List.filter_append_perm _ s.deactivatedHeaders).append_left s.process

theorem State.Conserves.trigger {s : State} (h : s.Conserves cfg) (now : Nat) (locked : Bool) :
    (s.trigger cfg now locked).2.Conserves cfg := by
  have hshift : (s.shift cfg now locked).Conserves cfg := by
    refine h.shuffle (s.shift_held cfg now locked) ?_ ?_ ?_ <;>
      (unfold State.shift; cases locked <;> rfl)
  unfold State.trigger
  split
  · exact h
  · by_cases hempty : (s.shift cfg now locked).process.isEmpty = true
    · simp only [hempty, if_true]
      exact hshift
    · simp only [hempty]
      exact hshift.shuffle (.refl _) rfl rfl rfl

theorem State.Conserves.push {s : State} (h : s.Conserves cfg) (header : DeactivatedHeader) :
    (s.push header).Conserves cfg := by
  have hheld : (s.push header).held.Perm (⟨s.pushed.length, header⟩ :: s.held) := by
    simp only [State.push, State.held, List.append_assoc]
    exact List.perm_middle
  have hfresh : s.turns.count s.pushed.length = 0 :=
    List.count_eq_zero.mpr fun hmem => Nat.lt_irrefl _ (h.turned _ hmem)
  have hlen : (s.push header).pushed.length = s.pushed.length + 1 := by
    simp only [State.push, List.length_append, List.length_singleton]
  refine ⟨?_, ?_, ?_, ?_⟩
  · rw [(hheld.map _).nodup_iff, List.map_cons, List.nodup_cons]
    refine ⟨fun hmem => ?_, h.origins⟩
    obtain ⟨t, ht, heq⟩ := List.mem_map.mp hmem
    exact Nat.lt_irrefl _ (heq ▸ h.bound t ht)
  · intro t ht
    rw [hlen]
    rcases List.mem_cons.mp (hheld.mem_iff.mp ht) with rfl | ht
    · exact Nat.lt_succ_self _
    · exact Nat.lt_succ_of_lt (h.bound t ht)
  · intro origin hmem
    rw [hlen]
    exact Nat.lt_succ_of_lt (h.turned origin hmem)
  · intro origin pushed hp
    simp only [State.push, List.getElem?_append] at hp
    split at hp
    · rcases h.remembers origin pushed hp with ⟨t, ht, hmatch⟩ | hdone
      · exact .inl ⟨t, hheld.mem_iff.mpr (List.mem_cons_of_mem _ ht), hmatch⟩
      · exact .inr hdone
    · rename_i hge
      rw [List.getElem?_singleton] at hp
      split at hp
      · have heq : origin = s.pushed.length := by omega
        subst heq
        cases hp
        refine .inl ⟨_, hheld.mem_iff.mpr List.mem_cons_self, rfl, rfl, ?_⟩
        change header.tries = header.tries + s.turns.count s.pushed.length
        rw [hfresh]
        rfl
      · cases hp

/-- A turn takes one header off the lists and brings it back with one more try, or is done with
it. -/
theorem State.Conserves.take {s s' : State} (h : s.Conserves cfg) {t : Tracked}
    {rest : List Tracked} (hheld : s.held.Perm (t :: rest)) (hpushed : s'.pushed = s.pushed)
    (hturns : s'.turns = s.turns ++ [t.origin])
    (hnext : (∃ t', s'.held.Perm (t' :: rest) ∧ t'.origin = t.origin ∧
        t'.header.header = t.header.header ∧ t'.header.tries = t.header.tries + 1 ∧
        s'.finished = s.finished) ∨
      (s'.held.Perm rest ∧ ∃ f, s'.finished = s.finished ++ [f] ∧ f.origin = t.origin ∧
        f.header = t.header ∧ f.Justified cfg)) : s'.Conserves cfg := by
  have hnodup : (t.origin :: rest.map Tracked.origin).Nodup := by
    rw [← List.map_cons, ← (hheld.map _).nodup_iff]
    exact h.origins
  have hbound : t.origin < s.pushed.length := h.bound t (hheld.mem_iff.mpr List.mem_cons_self)
  have hrest : ∀ u ∈ rest, u.origin < s.pushed.length ∧ u.origin ≠ t.origin := by
    intro u hu
    refine ⟨h.bound u (hheld.mem_iff.mpr (List.mem_cons_of_mem _ hu)), fun heq => ?_⟩
    exact (List.nodup_cons.mp hnodup).1 (heq ▸ List.mem_map_of_mem hu)
  have hcount : ∀ origin, origin ≠ t.origin → s'.turns.count origin = s.turns.count origin := by
    intro origin hne
    rw [hturns, List.count_append, List.count_singleton]
    simp [Ne.symm hne]
  have hself : s'.turns.count t.origin = s.turns.count t.origin + 1 := by
    rw [hturns, List.count_append, List.count_singleton_self]
  -- Any other header is where it was; the one that was taken is the only one of its origin.
  have hothers : ∀ origin pushed, s.pushed[origin]? = some pushed → rest ⊆ s'.held →
      s.finished ⊆ s'.finished → origin ≠ t.origin → s'.Remembers cfg origin pushed := by
    intro origin pushed hp hsub hfin hne
    rcases h.remembers origin pushed hp with ⟨u, hu, heq, hmatch⟩ | ⟨f, hf, hdone⟩
    · rcases List.mem_cons.mp (hheld.mem_iff.mp hu) with rfl | hu
      · exact absurd heq.symm hne
      · exact .inl ⟨u, hsub hu, heq, hcount origin hne ▸ hmatch⟩
    · exact .inr ⟨f, hfin hf, hdone⟩
  have htaken : ∀ pushed, s.pushed[t.origin]? = some pushed →
      (t.header.header = pushed.header ∧
        t.header.tries = pushed.tries + s.turns.count t.origin) ∨
      ∃ f ∈ s.finished, f.origin = t.origin ∧ f.header.header = pushed.header ∧ f.Justified cfg := by
    intro pushed hp
    rcases h.remembers t.origin pushed hp with ⟨u, hu, heq, hmatch⟩ | hdone
    · rcases List.mem_cons.mp (hheld.mem_iff.mp hu) with rfl | hu
      · exact .inl hmatch
      · exact absurd heq (hrest u hu).2
    · exact .inr hdone
  have hturned : ∀ origin ∈ s'.turns, origin < s'.pushed.length := by
    intro origin hmem
    rw [hturns] at hmem
    rw [hpushed]
    rcases List.mem_append.mp hmem with hmem | hmem
    · exact h.turned origin hmem
    · exact List.mem_singleton.mp hmem ▸ hbound
  rcases hnext with ⟨t', hheld', horigin, hheader, htries, hfinished⟩ | ⟨hheld', f, hfinished, horigin, hheader, hjust⟩
  · refine ⟨?_, ?_, hturned, ?_⟩
    · rw [(hheld'.map _).nodup_iff, List.map_cons, horigin]
      exact hnodup
    · intro u hu
      rw [hpushed]
      rcases List.mem_cons.mp (hheld'.mem_iff.mp hu) with rfl | hu
      · exact horigin ▸ hbound
      · exact (hrest u hu).1
    · intro origin pushed hp
      rw [hpushed] at hp
      by_cases heq : origin = t.origin
      · subst heq
        rcases htaken pushed hp with ⟨hh, ht⟩ | hdone
        · refine .inl ⟨t', hheld'.mem_iff.mpr List.mem_cons_self, horigin, hheader.trans hh, ?_⟩
          omega
        · exact .inr (hfinished ▸ hdone)
      · refine hothers origin pushed hp (fun u hu => ?_) (hfinished ▸ List.Subset.refl _) heq
        exact hheld'.mem_iff.mpr (List.mem_cons_of_mem _ hu)
  · refine ⟨?_, ?_, hturned, ?_⟩
    · rw [(hheld'.map _).nodup_iff]
      exact (List.nodup_cons.mp hnodup).2
    · intro u hu
      rw [hpushed]
      exact (hrest u (hheld'.mem_iff.mp hu)).1
    · intro origin pushed hp
      rw [hpushed] at hp
      by_cases heq : origin = t.origin
      · subst heq
        refine .inr ?_
        rcases htaken pushed hp with ⟨hh, -⟩ | ⟨f', hf', hdone⟩
        · refine ⟨f, hfinished ▸ List.mem_append_right _ (List.mem_singleton_self _), horigin, ?_, hjust⟩
          rw [hheader, hh]
        · exact ⟨f', hfinished ▸ List.mem_append_left _ hf', hdone⟩
      · refine hothers origin pushed hp (fun u hu => hheld'.mem_iff.mpr hu) ?_ heq
        rw [hfinished]
        exact List.subset_append_left _ _

theorem perm_dropLast_getLast {process : List Tracked} {t : Tracked}
    (h : process.getLast? = some t) : process.Perm (t :: process.dropLast) := by
  have hsplit := List.dropLast_append_getLast? t h
  nth_rewrite 1 [← hsplit]
  exact List.perm_append_singleton t process.dropLast

theorem State.Conserves.turn {s : State} (h : s.Conserves cfg) (services : Services)
    {faults : Faults} (hfind : faults.find = none) (now : Nat) :
    (s.turn cfg services faults now false).Conserves cfg := by
  unfold State.turn
  split
  · exact h
  · rename_i t hlast
    have hheld : s.held.Perm (t :: (s.deactivatedHeaders ++ s.process.dropLast)) :=
      ((perm_dropLast_getLast hlast).append_left _).trans List.perm_middle
    obtain ⟨rows, store, hrun, hrows⟩ :=
      run_processHeader services hfind t.header.header.hash s.store
    simp only [hrun, State.conclude]
    by_cases hall : rows.all (·.2 == .updated) = true
    · rw [if_pos hall]
      refine h.take hheld rfl rfl (.inr ⟨.refl _, _, rfl, rfl, rfl, .inr (.inl ⟨hrows, ?_⟩)⟩)
      intro row hrow
      exact beq_iff_eq.mp (List.all_eq_true.mp hall row hrow)
    · rw [if_neg hall]
      by_cases htries : cfg.maxRetries ≤ t.header.tries + 1
      · rw [if_pos htries]
        exact h.take hheld rfl rfl (.inr ⟨.refl _, _, rfl, rfl, rfl, .inr (.inr htries)⟩)
      · rw [if_neg htries]
        refine h.take hheld rfl rfl
          (.inl ⟨⟨t.origin, ⟨now, t.header.tries + 1, t.header.header⟩⟩, ?_, rfl, rfl, rfl, rfl⟩)
        simp only [State.held, Bool.false_eq_true, if_false, List.append_assoc]
        exact List.perm_middle

theorem State.Conserves.next {s : State} (h : s.Conserves cfg) {a : Action} (hok : Steady s a) :
    (a.next cfg s).Conserves cfg := by
  cases a with
  | push header => exact h.push header
  | trigger now locked => exact h.trigger now locked
  | turn services faults now locked =>
    obtain ⟨hfind, rfl⟩ := hok
    exact h.turn services hfind now
  | write store => exact h.shuffle (.refl _) rfl rfl rfl

theorem reaches_conserves {s : State} (h : (task cfg).Reaches Steady s) : s.Conserves cfg := by
  refine h.inv ⟨List.nodup_nil, ?_, ?_, ?_⟩ fun _ _ hs _ hok => hs.next hok
  · intro t ht
    cases ht
  · intro origin hmem
    cases hmem
  · intro origin pushed hp
    cases hp

/-- In every run in which no search for proofs fails and no push back finds the queue locked, every
header that was ever pushed is in the queue or the process list, or is done. -/
theorem deactivated_header_kept (cfg : Config) (s : State) (h : (task cfg).Reaches Steady s)
    (origin : Nat) (pushed : DeactivatedHeader) (hpushed : s.pushed[origin]? = some pushed) :
    s.Remembers cfg origin pushed :=
  (reaches_conserves h).remembers origin pushed hpushed

/-! ## The two exits that forget -/

def sampleHeader : DeactivatedHeader where
  whenMsecs := 1000
  tries := 0
  header := { height := 100, hash := "blockhash", merkleRoot := "abcd" }

/-- Services that have nothing to say. -/
def silentServices : Services where
  postBeef _ _ := []
  getStatusForTxids _ := { status := "error" }
  isUtxo _ _ _ := .ok false
  getMerklePath _ := {}

/-- A header is pushed and ages, and its turn comes while the storage fails. -/
def forgetfulRun : List Action :=
  [.push sampleHeader, .trigger 1700000000000 false,
    .turn silentServices { find := some "database is locked" } 1700000000000 false]

/-- The same header with a storage that answers: no proof names its block. -/
def steadyRun : List Action :=
  [.push sampleHeader, .trigger 1700000000000 false,
    .turn silentServices {} 1700000000000 false]

instance (cfg : Config) (s : State) (a : Action) : Decidable ((task cfg).Enabled s a) :=
  isTrue trivial

theorem deactivated_header_kept_sample :
    ∃ s, (task {}).Reaches Steady s ∧ s.pushed[0]? = some sampleHeader ∧
      s.Remembers {} 0 sampleHeader :=
  have hrun : (task {}).Reaches Steady ((task {}).after {} steadyRun) :=
    System.Reaches.after .init (by decide +kernel)
  ⟨_, hrun, rfl, deactivated_header_kept {} _ hrun 0 sampleHeader rfl⟩

/-- The header is in no list any more, although no turn was done with it. -/
theorem deactivated_header_forgotten :
    ∃ s, (task {}).Reaches (fun _ _ => True) s ∧ s.pushed[0]? = some sampleHeader ∧
      ¬ s.Remembers {} 0 sampleHeader := by
  refine ⟨(task {}).after {} forgetfulRun, System.Reaches.after .init (by decide +kernel), rfl, ?_⟩
  have hheld : ((task {}).after {} forgetfulRun).held.length = 0 := by decide +kernel
  have hfinished : ((task {}).after {} forgetfulRun).finished.length = 0 := by decide +kernel
  rintro (⟨t, ht, -⟩ | ⟨f, hf, -⟩)
  · rw [List.length_eq_zero_iff.mp hheld] at ht
    cases ht
  · rw [List.length_eq_zero_iff.mp hfinished] at hf
    cases hf

end WalletToolbox.Reorg
