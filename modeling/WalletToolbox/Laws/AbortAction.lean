import WalletToolbox.Laws.Outcomes
import WalletToolbox.Methods.AbortAction

/-! # What abortAction does

A call that passes its checks releases the inputs of the action, retires its outputs, fails its
transaction and invalidates its request; no statement of it is refused.
A call that fails has no effect. -/

namespace WalletToolbox.Storage

open WalletToolbox.Lib
open WalletToolbox.Lib.Prog hiding pure exec

variable {sdk : Sdk} {s : Store} {E : Store → Prop}

/-! ## What a call reads -/

/-- The action that a reference names, as the code finds it. -/
def abortTarget (s : Store) (userId : Nat) (reference : Bytes) : Option Transaction :=
  match s.transactions.first fun t =>
      t.userId == userId && t.reference == base64Encode reference with
  | some tx => some tx
  | none =>
    (txidFallback reference).bind fun txid =>
      s.transactions.first fun t => t.userId == userId && t.txid == some txid

/-- The rows that a call releases: those the action claims, and those its raw transaction spends. -/
def abortInputIds (sdk : Sdk) (s : Store) (userId : Nat) (tx : Transaction) :
    Except WalletError (List Nat) :=
  let claimed := s.outputs.find fun o => o.userId == userId && o.spentBy == some tx.transactionId
  match tx.rawTx with
  | none => .ok (claimed.map (·.outputId))
  | some rawTx =>
    match sdk.parseTx rawTx with
    | .error e =>
      .error (.internal s!"abort_action: transaction {tx.transactionId} has invalid rawTx: {e}")
    | .ok parsed => .ok ((claimed ++ rowsOfInputs userId parsed.inputs s).map (·.outputId)).eraseDups

/-- The request that a call invalidates, with its new history. -/
def abortedRequest (s : Store) (txid : Option String) (reference stamp : String) :
    Except WalletError (Option (ProvenTxReq × Json)) :=
  match txid.bind fun txid => s.provenTxReqs.first (·.txid == txid) with
  | none => .ok none
  | some req => (abortHistory req reference stamp).map fun history => some (req, history)

/-- What a call that succeeds has found. -/
structure Abortable (sdk : Sdk) (s : Store) (auth : String) (reference : Bytes) (stamp : String)
    (user : User) (tx : Transaction) (ids : List Nat) (req : Option (ProvenTxReq × Json)) : Prop where
  known : verifyOneOrNone (s.users.find (·.identityKey == auth)) = .ok (some user)
  target : abortTarget s user.userId reference = some tx
  outgoing : tx.isOutgoing = true
  status : unAbortable tx.status = false
  inputs : abortInputIds sdk s user.userId tx = .ok ids
  request : abortedRequest s tx.txid ((txidFallback reference).getD (base64Encode reference))
    stamp = .ok req

/-- The action that a call fails is a row of the caller. -/
theorem Abortable.mem {auth : String} {reference : Bytes} {stamp : String} {user : User}
    {tx : Transaction} {ids : List Nat} {req : Option (ProvenTxReq × Json)}
    (h : Abortable sdk s auth reference stamp user tx ids req) :
    tx ∈ s.transactions ∧ tx.userId = user.userId := by
  have htarget := h.target
  unfold abortTarget at htarget
  split at htarget
  · rename_i tx' hfirst
    obtain ⟨hmem, hsel⟩ := Table.first_some (hfirst.trans htarget)
    simp only [Bool.and_eq_true, beq_iff_eq] at hsel
    exact ⟨hmem, hsel.1⟩
  · obtain ⟨txid, -, hfirst⟩ := Option.bind_eq_some_iff.mp htarget
    obtain ⟨hmem, hsel⟩ := Table.first_some hfirst
    simp only [Bool.and_eq_true, beq_iff_eq] at hsel
    exact ⟨hmem, hsel.1⟩

/-! ## What a call writes -/

/-- An output of the action that is in use or claimed. -/
def retirable (userId id : Nat) (o : Output) : Bool :=
  o.userId == userId && o.transactionId == id && (o.spendable || o.spentBy.isSome)

/-- Take an output out of use. -/
def takeOut (now : Nat) (o : Output) : Output :=
  { o with spendable := false, spentBy := none, updatedAt := toSeconds now }

def Tables.retireOwn (d : Tables) (userId id : Nat) : Tables :=
  { d with outputs := d.outputs.update (retirable userId id) (takeOut d.now) fun _ => rfl }

/-- Invalidate a request. -/
def Tables.invalidate (d : Tables) (req : Option (ProvenTxReq × Json)) : Tables :=
  match req with
  | none => d
  | some (r, history) => ((Stmt.updateProvenTxReq r.provenTxReqId
      { status := some .invalid, history := some history }).apply d).2

/-- The effect of a call on the tables it found. -/
def abortEffect (d : Tables) (userId id : Nat) (ids : List Nat) (req : Option (ProvenTxReq × Json)) :
    Tables :=
  (((Stmt.updateTransaction id { status := some .failed }).apply
    ((d.releaseWhere (releasable ids id)).retireOwn userId id)).2).invalidate req

theorem mem_retireOwn {d : Tables} {userId id : Nat} {o : Output} :
    o ∈ (d.retireOwn userId id).outputs ↔
      ∃ o₀ ∈ d.outputs, o = if retirable userId id o₀ then takeOut d.now o₀ else o₀ := by
  simp only [Tables.retireOwn]
  exact Table.mem_update

/-- A request after an abort that found the given one. -/
def invalidated (now : Nat) (req : Option (ProvenTxReq × Json)) (q : ProvenTxReq) : ProvenTxReq :=
  match req with
  | none => q
  | some (r, history) =>
    if q.provenTxReqId = r.provenTxReqId then
      { q with status := .invalid, history := some history, updatedAt := toSeconds now }
    else q

theorem invalidated_txid {now : Nat} {req : Option (ProvenTxReq × Json)} {q : ProvenTxReq} :
    (invalidated now req q).txid = q.txid := by
  unfold invalidated
  split
  · rfl
  · split <;> rfl

theorem mem_invalidate {d : Tables} {req : Option (ProvenTxReq × Json)} {q : ProvenTxReq} :
    q ∈ (d.invalidate req).provenTxReqs ↔ ∃ q₀ ∈ d.provenTxReqs, q = invalidated d.now req q₀ := by
  cases req with
  | none => simp [Tables.invalidate, invalidated]
  | some r => exact mem_updateProvenTxReq

theorem abortEffect_transactions {d : Tables} {userId id : Nat} {ids : List Nat}
    {req : Option (ProvenTxReq × Json)} {t : Transaction} :
    t ∈ (abortEffect d userId id ids req).transactions ↔ ∃ t₀ ∈ d.transactions, t =
      if t₀.transactionId = id then { t₀ with status := .failed, updatedAt := toSeconds d.now }
      else t₀ := by
  have hsame : (abortEffect d userId id ids req).transactions =
      ((Stmt.updateTransaction id { status := some .failed }).apply d).2.transactions := by
    unfold abortEffect Tables.invalidate
    cases req <;> rfl
  rw [hsame]
  exact mem_updateTransaction

theorem abortEffect_outputs {d : Tables} {userId id : Nat} {ids : List Nat}
    {req : Option (ProvenTxReq × Json)} :
    (abortEffect d userId id ids req).outputs =
      ((d.releaseWhere (releasable ids id)).retireOwn userId id).outputs := by
  unfold abortEffect Tables.invalidate
  cases req <;> rfl

theorem abortEffect_provenTxReqs {d : Tables} {userId id : Nat} {ids : List Nat}
    {req : Option (ProvenTxReq × Json)} :
    (abortEffect d userId id ids req).provenTxReqs = (d.invalidate req).provenTxReqs := by
  unfold abortEffect Tables.invalidate
  cases req <;> rfl

/-! ## The call -/

theorem wp_findAbortTarget {userId : Nat} {reference : Bytes} {Q : Option Transaction → Store → Prop}
    (h : Q (abortTarget s userId reference) s) :
    wp Stmt.exec (findAbortTarget userId reference) Q E s := by
  unfold findAbortTarget
  unfold abortTarget at h
  rw [wp_bind, wp_ask]
  split
  · rename_i tx htx
    simp only [htx] at h
    exact h
  · rename_i hnone
    simp only [hnone] at h
    split
    · rename_i hfallback
      simp only [hfallback, Option.bind_none] at h
      exact h
    · rename_i txid hfallback
      simp only [hfallback, Option.bind_some] at h
      exact h

theorem wp_abortInputs {userId : Nat} {tx : Transaction} {Q : List Nat → Store → Prop}
    (hok : ∀ ids, abortInputIds sdk s userId tx = .ok ids → Q ids s)
    (herr : (∀ ids, abortInputIds sdk s userId tx ≠ .ok ids) → E s) :
    wp Stmt.exec (abortInputs sdk userId tx) Q E s := by
  unfold abortInputs
  unfold abortInputIds at hok herr
  rw [wp_bind, wp_ask]
  cases hraw : tx.rawTx with
  | none =>
    simp only [hraw] at hok
    exact hok _ rfl
  | some rawTx =>
    simp only [hraw] at hok
    cases hparse : sdk.parseTx rawTx with
    | error e =>
      simp only [hraw, hparse] at herr ⊢
      exact herr fun ids h => by cases h
    | ok parsed =>
      simp only [hparse] at hok ⊢
      rw [wp_bind, wp_ask]
      exact hok _ rfl

/-- Retiring the outputs one after another retires them at once. -/
theorem wp_retireOutputs {userId id : Nat} {Q : Unit → Store → Prop}
    (h : ∀ s' : Store, s'.toTables = s.toTables.retireOwn userId id → Q () s') :
    wp Stmt.exec (retireOutputs userId id) Q E s := by
  unfold retireOutputs
  rw [wp_bind, wp_ask]
  refine wp_forM_selected (fun _ _ _ => wp_exec'_plain (by exact ⟨rfl, .inr (.inr rfl)⟩)) fun s' hs' =>
    h s' (hs'.trans ?_)
  have hids := foldl_updateOutput s.toTables { spendable := some false, spentBy := some 0 }
    ((s.outputs.find (retirable userId id)).map (·.outputId))
  rw [List.foldl_map] at hids
  have hfind : (s.outputs.find fun o => o.userId == userId && o.transactionId == id).filter
      (fun o => o.spendable || o.spentBy.isSome) = s.outputs.find (retirable userId id) :=
    (List.filter_filter ..).trans (List.filter_congr fun o _ => Bool.and_comm _ _)
  rw [hfind, hids]
  refine congrArg (fun t => { s.toTables with outputs := t }) (Table.update_congr fun o ho => ?_)
  rw [show ((s.outputs.find (retirable userId id)).map (·.outputId)).contains o.outputId =
    retirable userId id o from Table.contains_key_find ho]
  rfl

theorem wp_abortRequest {txid : Option String} {reference stamp : String} {Q : Unit → Store → Prop}
    (hok : ∀ req, abortedRequest s txid reference stamp = .ok req →
      ∀ s' : Store, s'.toTables = s.toTables.invalidate req → Q () s')
    (herr : (∀ req, abortedRequest s txid reference stamp ≠ .ok req) → E s) :
    wp Stmt.exec (abortRequest txid reference stamp) Q E s := by
  unfold abortRequest
  unfold abortedRequest at hok herr
  cases txid with
  | none => exact hok none rfl s rfl
  | some txid =>
    simp only [Option.bind_some] at hok herr
    rw [wp_bind, wp_ask]
    cases hreq : s.provenTxReqs.first (·.txid == txid) with
    | none =>
      simp only [hreq] at hok
      exact hok none rfl s rfl
    | some req =>
      simp only [hreq] at hok herr
      rw [wp_bind]
      refine wp_ofExcept (fun history hhistory => ?_) fun e he => herr ?_
      · rw [hhistory] at hok
        exact wp_exec'_plain (by exact rfl) fun s' hs' => hok _ rfl s' hs'
      · rw [he]
        exact fun req h => by cases h

/-- What a call does: its effect when it passes its checks, and nothing otherwise. -/
theorem wp_abortAction {auth : String} {reference : Bytes} {stamp : String}
    {Q : Unit → Store → Prop}
    (hok : ∀ user tx ids req, Abortable sdk s auth reference stamp user tx ids req →
      ∀ s' : Store, s'.toTables = abortEffect s.toTables user.userId tx.transactionId ids req →
      Q () s')
    (herr : (∀ user tx ids req, ¬ Abortable sdk s auth reference stamp user tx ids req) → E s) :
    wp Stmt.exec (abortAction sdk auth reference stamp) Q E s := by
  unfold abortAction
  rw [wp_atomically]
  unfold abortActionBody findUserByIdentityKey
  simp only [wp_bind, wp_ask]
  refine wp_ofExcept (fun found hfound => ?_) fun e he => herr fun user tx ids req h => ?_
  · cases found with
    | none =>
      refine herr fun user tx ids req h => ?_
      have hknown := h.known
      rw [hfound] at hknown
      cases hknown
    | some user =>
      have huser : ∀ {user' tx ids req}, Abortable sdk s auth reference stamp user' tx ids req →
          user = user' := by
        intro user' tx ids req h
        have hknown := h.known
        rw [hfound] at hknown
        exact Option.some.inj (Except.ok.inj hknown)
      simp only [wp_bind]
      refine wp_findAbortTarget ?_
      cases htarget : abortTarget s user.userId reference with
      | none =>
        refine herr fun user' tx ids req h => ?_
        have hfind := h.target
        rw [← huser h, htarget] at hfind
        cases hfind
      | some tx =>
        have htx : ∀ {user' tx' ids req}, Abortable sdk s auth reference stamp user' tx' ids req →
            tx = tx' := by
          intro user' tx' ids req h
          have hfind := h.target
          rw [← huser h, htarget] at hfind
          exact Option.some.inj hfind
        simp only
        split
        · rename_i hcheck
          refine herr fun user' tx' ids req h => ?_
          cases htx h
          simp [h.outgoing, h.status] at hcheck
        · rename_i hcheck
          obtain ⟨houtgoing, hstatus⟩ : tx.isOutgoing = true ∧ unAbortable tx.status = false := by
            simpa using hcheck
          simp only [wp_bind]
          refine wp_abortInputs (fun ids hids => ?_) fun hno => herr fun user' tx' ids req h => ?_
          · refine wp_releaseInputsSpentBy fun _ s₁ h₁ => ?_
            refine wp_retireOutputs fun s₂ h₂ => ?_
            refine wp_exec'_plain (by exact rfl) fun s₃ h₃ => ?_
            have hreqs : s₃.provenTxReqs = s.provenTxReqs := by
              rw [h₃]
              show s₂.provenTxReqs = _
              rw [h₂]
              show s₁.provenTxReqs = _
              rw [h₁]
              rfl
            have hsame : abortedRequest s₃ tx.txid
                ((txidFallback reference).getD (base64Encode reference)) stamp =
                abortedRequest s tx.txid
                  ((txidFallback reference).getD (base64Encode reference)) stamp := by
              simp only [abortedRequest, hreqs]
            refine wp_abortRequest (fun req hreq s' hs' => ?_) fun hno =>
              herr fun user' tx' ids req h => ?_
            · refine hok user tx ids req
                ⟨hfound, htarget, houtgoing, hstatus, hids, hsame ▸ hreq⟩ s' ?_
              rw [hs', h₃, h₂, h₁]
              rfl
            · cases htx h
              exact hno req (hsame.trans h.request)
          · cases htx h
            cases huser h
            exact hno ids h.inputs
  · have hknown := h.known
    rw [he] at hknown
    cases hknown

/-! ## The caller's own action -/

section Own

variable {s' : Store} {user : User} {reference : Bytes} {stamp : String}

/-- A row of the reference is what an abort finds. -/
theorem abortTarget_eq {t : Transaction} (ht : t ∈ s.transactions) {userId : Nat} {reference : Bytes}
    (huser : t.userId = userId) (href : t.reference = base64Encode reference) :
    abortTarget s userId reference = some t := by
  unfold abortTarget
  cases hfirst : s.transactions.first fun t =>
      t.userId == userId && t.reference == base64Encode reference with
  | none =>
    have hno := Table.first_none.mp hfirst t ht
    simp [huser, href] at hno
  | some f =>
    obtain ⟨hmem, hsel⟩ := Table.first_some hfirst
    simp only [Bool.and_eq_true, beq_iff_eq] at hsel
    rw [s.unique.transactions.eq hmem ht (hsel.2.trans href.symm)]

theorem firstReq_eq {q : ProvenTxReq} (hq : q ∈ s.provenTxReqs) :
    s.provenTxReqs.first (·.txid == q.txid) = some q := by
  cases hfirst : s.provenTxReqs.first (·.txid == q.txid) with
  | none =>
    have hno := Table.first_none.mp hfirst q hq
    simp at hno
  | some r =>
    obtain ⟨hmem, hsel⟩ := Table.first_some hfirst
    rw [s.unique.provenTxReqs.eq hmem hq (by simpa using hsel)]

/-- The user that an abort finds is the caller. -/
theorem Abortable.user_eq {user : User} {reference : Bytes} {stamp : String} {found : User}
    {t : Transaction} {ids : List Nat} {req : Option (ProvenTxReq × Json)}
    (h : Abortable sdk s user.identityKey reference stamp found t ids req) (hu : user ∈ s.users) :
    found = user :=
  Option.some.inj (verifyOneOrNone_unique h.known hu (by simp))

/-- The transaction that an abort finds is the one of the reference. -/
theorem Abortable.target_eq {user : User} {reference : Bytes} {stamp : String} {t tx : Transaction}
    {ids : List Nat} {req : Option (ProvenTxReq × Json)}
    (h : Abortable sdk s user.identityKey reference stamp user tx ids req) (ht : t ∈ s.transactions)
    (huser : t.userId = user.userId) (href : t.reference = base64Encode reference) : tx = t := by
  have htarget := h.target
  rw [abortTarget_eq ht huser href] at htarget
  exact (Option.some.inj htarget).symm

/-- A call that returns Ok has its effect. -/
theorem abortAction_ok (hu : user ∈ s.users)
    (hrun : (abortAction sdk user.identityKey reference stamp).run Stmt.exec s = (.ok (), s')) :
    ∃ t ids req, Abortable sdk s user.identityKey reference stamp user t ids req ∧
      s'.toTables = abortEffect s.toTables user.userId t.transactionId ids req := by
  refine wp_ok (Q := fun (_ : Unit) (s' : Store) => ∃ t ids req,
    Abortable sdk s user.identityKey reference stamp user t ids req ∧
      s'.toTables = abortEffect s.toTables user.userId t.transactionId ids req)
    (E := fun _ => True) (wp_abortAction (fun found t ids req h s' hs' => ?_) fun _ => trivial) hrun
  cases h.user_eq hu
  exact ⟨t, ids, req, h, hs'⟩

/-- A call that passes its checks returns Ok. -/
theorem run_abortAction (hu : user ∈ s.users) {t : Transaction} {ids : List Nat}
    {req : Option (ProvenTxReq × Json)}
    (h : Abortable sdk s user.identityKey reference stamp user t ids req) :
    ∃ s', (abortAction sdk user.identityKey reference stamp).run Stmt.exec s = (.ok (), s') ∧
      s'.toTables = abortEffect s.toTables user.userId t.transactionId ids req := by
  obtain ⟨⟨⟩, s', hrun, -⟩ := wp_total (wp_abortAction (Q := fun _ _ => True)
    (fun _ _ _ _ _ _ _ => trivial) fun hno => hno user t ids req h)
  obtain ⟨t', ids', req', h', hs'⟩ := abortAction_ok hu hrun
  cases Option.some.inj (h.target.symm.trans h'.target)
  cases Except.ok.inj (h.inputs.symm.trans h'.inputs)
  cases Except.ok.inj (h.request.symm.trans h'.request)
  exact ⟨s', hrun, hs'⟩

/-- A call fails when the request of the action has an array for its history. -/
theorem abortAction_refused (hu : user ∈ s.users) {t : Transaction} (ht : t ∈ s.transactions)
    (huser : t.userId = user.userId) (href : t.reference = base64Encode reference)
    {q : ProvenTxReq} (hq : q ∈ s.provenTxReqs) (htxid : t.txid = some q.txid) {notes : List Json}
    (hnotes : q.history = some (.arr notes)) :
    ¬ (abortAction sdk user.identityKey reference stamp).run Stmt.exec s = (.ok (), s') := by
  intro hrun
  obtain ⟨tx, ids, req, h, -⟩ := abortAction_ok hu hrun
  cases h.target_eq ht huser href
  have hreq := h.request
  simp only [abortedRequest, htxid, Option.bind_some, firstReq_eq hq, abortHistory, hnotes,
    Option.getD_some, Except.map] at hreq
  cases hreq

end Own

end WalletToolbox.Storage
