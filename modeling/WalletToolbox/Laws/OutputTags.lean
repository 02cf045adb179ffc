import WalletToolbox.Laws.Listings
import WalletToolbox.Laws.NoSendChange

/-! # The tags of created outputs

createAction takes tags for the outputs that the caller asks for, and its result reports them.
A listing looks for tags in the rows that link them to outputs.
Neither createAction nor processAction writes such a row. -/

namespace WalletToolbox.Storage

open WalletToolbox.Lib WalletToolbox.Signer
open WalletToolbox.Lib.Prog hiding pure exec

/-! ## Links -/

section Links

variable {s s' : Store} {w : Stmt} {n id : Nat}

/-- A later version of an output row is at the same place. -/
structure SamePlace (o o' : Output) : Prop where
  outputId : o'.outputId = o.outputId
  transactionId : o'.transactionId = o.transactionId
  vout : o'.vout = o.vout

theorem SamePlace.refl (o : Output) : SamePlace o o := ⟨rfl, rfl, rfl⟩

/-- No statement removes an output or moves it. -/
theorem exec_outputs_extends (hexec : w.exec s = .ok (n, s')) :
    Table.Extends SamePlace s.outputs s'.outputs := by
  by_cases htarget : w.target = .outputs
  · rw [(exec_eq hexec).2]
    have hupdate : ∀ (p : Output → Bool) (f : Output → Output) (hf : ∀ o, key (f o) = key o),
        (∀ o, SamePlace o (f o)) → Table.Extends SamePlace s.outputs (s.outputs.update p f hf) :=
      fun p f hf hplace => Table.Extends.update SamePlace.refl fun o _ _ => hplace o
    cases w with
    | insertOutput r => exact @Table.Extends.insert _ _ _ _ r.stored (fun _ => rfl) SamePlace.refl
    | updateOutput id p => exact hupdate _ (p.apply s.now) (fun _ => rfl) fun o => ⟨rfl, rfl, rfl⟩
    | markInputsSpent ids t u => exact hupdate _ (claim s.now t) (fun _ => rfl) fun o => ⟨rfl, rfl, rfl⟩
    | releaseInputsSpentBy ids t => exact hupdate _ (release s.now) (fun _ => rfl) fun o => ⟨rfl, rfl, rfl⟩
    | _ => exact absurd htarget nofun
  · rw [exec_outputs hexec htarget]
    exact Table.Extends.refl SamePlace.refl _

/-- No tag is linked to an output of the transaction. -/
def Unlinked (id : Nat) (s : Store) : Prop :=
  ∀ o ∈ s.outputs, o.transactionId = id → ∀ m ∈ s.outputTagMaps, m.outputId ≠ o.outputId

/-- A new link is to an output of another transaction. -/
def LinksOthers (id : Nat) (s : Store) : Stmt → Prop
  | .insertOutputTagMap r => ∀ o ∈ s.outputs, o.transactionId = id → r.outputId ≠ o.outputId
  | _ => True

/-- The links after a statement are links of before, apart from a new one. -/
theorem exec_links (hexec : w.exec s = .ok (n, s')) {m : OutputTagMap} (hm : m ∈ s'.outputTagMaps) :
    (∃ m₀ ∈ s.outputTagMaps, m.outputId = m₀.outputId) ∨
      ∃ r, w = .insertOutputTagMap r ∧ m.outputId = r.outputId := by
  by_cases htarget : w.target = .outputTagMaps
  · rw [(exec_eq hexec).2] at hm
    cases w with
    | insertOutputTagMap r =>
      simp only [Stmt.apply] at hm
      rcases Table.mem_insert.mp hm with hold | rfl
      · exact .inl ⟨m, hold, rfl⟩
      · exact .inr ⟨r, rfl, rfl⟩
    | updateOutputTagMap o t p =>
      simp only [Stmt.apply] at hm
      obtain ⟨m₀, h₀, rfl⟩ := Table.mem_update.mp hm
      refine .inl ⟨m₀, h₀, ?_⟩
      split <;> rfl
    | _ => cases htarget
  · rw [exec_outputTagMaps hexec htarget] at hm
    exact .inl ⟨m, hm, rfl⟩

/-- A link refers to an output that was there before: new outputs have new ids. -/
theorem Unlinked.step (h : Unlinked id s) (hexec : w.exec s = .ok (n, s'))
    (hw : LinksOthers id s w) : Unlinked id s' := by
  intro o' ho' hid m hm heq
  rcases exec_links hexec hm with ⟨m₀, h₀, hsame⟩ | ⟨r, rfl, hsame⟩
  · obtain ⟨o, ho, hkey⟩ := s.foreign.tagMapOutput m₀ h₀
    obtain ⟨o₁, ho₁, hplace⟩ := (exec_outputs_extends hexec).mem ho
    obtain rfl : o₁ = o' := by
      refine Table.eq_of_key_eq ho₁ ho' ?_
      exact hplace.outputId.trans (hkey.trans (hsame.symm.trans heq))
    exact h o ho (hplace.transactionId.symm.trans hid) m₀ h₀ hkey.symm
  · rw [exec_outputs hexec nofun] at ho'
    exact hw o' ho' hid (hsame.symm.trans heq)

/-- The transaction has an output with the vout. -/
def HasOutput (id vout : Nat) (s : Store) : Prop :=
  ∃ o ∈ s.outputs, o.transactionId = id ∧ o.vout = vout

theorem HasOutput.step {vout : Nat} (h : HasOutput id vout s) (hexec : w.exec s = .ok (n, s')) :
    HasOutput id vout s' := by
  obtain ⟨o, ho, hid, hvout⟩ := h
  obtain ⟨o', ho', hplace⟩ := (exec_outputs_extends hexec).mem ho
  exact ⟨o', ho', hplace.transactionId.trans hid, hplace.vout.trans hvout⟩

/-- Other things happen to the database, and none of them links a tag to an output of the
transaction. -/
inductive Meanwhile (id : Nat) (s : Store) : Store → Prop where
  | refl : Meanwhile id s s
  | tick {s₁ : Store} (now : Nat) : Meanwhile id s s₁ → Meanwhile id s (s₁.tick now)
  | exec {s₁ s₂ : Store} {w : Stmt} {n : Nat} : Meanwhile id s s₁ → LinksOthers id s₁ w →
      w.exec s₁ = .ok (n, s₂) → Meanwhile id s s₂

/-- What is known of the outputs that a transaction was created with. -/
structure Bare (id : Nat) (vouts : List Nat) (s : Store) : Prop where
  unlinked : Unlinked id s
  there : ∀ v ∈ vouts, HasOutput id v s

theorem Bare.step {vouts : List Nat} (h : Bare id vouts s) (hexec : w.exec s = .ok (n, s'))
    (hw : LinksOthers id s w) : Bare id vouts s' :=
  ⟨h.unlinked.step hexec hw, fun v hv => (h.there v hv).step hexec⟩

theorem Bare.meanwhile {vouts : List Nat} (h : Bare id vouts s) (hlater : Meanwhile id s s') :
    Bare id vouts s' := by
  induction hlater with
  | refl => exact h
  | tick now _ ih => exact ⟨ih.unlinked, ih.there⟩
  | exec _ hothers hexec ih => exact ih.step hexec hothers

/-- A statement that does not write the links. -/
def KeepsLinks (w : Stmt) : Prop :=
  w.target ≠ .outputTagMaps

theorem KeepsLinks.linksOthers (hw : KeepsLinks w) : LinksOthers id s w := by
  cases w with
  | insertOutputTagMap r => exact absurd rfl hw
  | _ => trivial

theorem Bare.run {α : Type} {p : StorageProg α} {vouts : List Nat} {result : Except WalletError α}
    (hp : p.Emits KeepsLinks) (h : Bare id vouts s) (hrun : p.run Stmt.exec s = (result, s')) :
    Bare id vouts s' := by
  have hleft := hp.run (fun _ _ _ _ hw h hexec => h.step hexec hw.linksOthers) h
  rwa [hrun] at hleft

end Links

/-! ## The calls -/

section Calls

variable {sdk : Sdk} {userId id : Nat}

theorem emits_createAction {entropy : Entropy} {auth : String} {args : StorageCreateActionArgs} :
    (createAction sdk entropy auth args).Emits KeepsLinks := by
  have hplan : ∀ userId basket now id,
      (planAction sdk entropy userId args basket now id).Emits KeepsLinks := by
    intro userId basket now id
    refine Emits.bind (Emits.forM fun label _ => emits_addActionLabel (fun _ => nofun) fun _ => nofun)
      fun _ => Emits.bind (Emits.ofExcept _) fun beef => ?_
    refine Emits.bind (Emits.foldlM fun _ _ _ => emits_planInput fun _ => nofun) fun planned => ?_
    refine Emits.bind (emits_fundAction fun _ => nofun) fun funding => ?_
    refine Emits.bind (emits_storeOutputs (fun _ => nofun) fun _ => nofun) fun pending => ?_
    exact Emits.bind emits_addChangeInputs fun inputs =>
      Emits.bind (emits_exec' nofun) fun _ => Emits.pure _
  refine Emits.bind (emits_findOrInsertUser auth fun _ => nofun) fun user => ?_
  refine Emits.bind (Emits.ask _) fun now => Emits.bind (Emits.ask _) fun rows =>
    Emits.bind (Emits.ofExcept _) fun basket => Emits.atomically ?_
  exact Emits.bind (Emits.exec nofun) fun id => hplan _ _ _ _

theorem emits_scheduleSendWith {random : String} {txids : List String} :
    (scheduleSendWith userId random txids).Emits KeepsLinks := by
  unfold scheduleSendWith
  split
  · exact Emits.pure _
  · refine Emits.atomically (Emits.foldlM fun results txid _ => Emits.bind ?_ fun _ => Emits.pure _)
    refine Emits.bind (Emits.ask _) fun found => ?_
    cases found with
    | none => exact Emits.pure _
    | some req =>
      dsimp only
      split
      · exact Emits.bind (emits_exec' nofun) fun _ => Emits.bind (Emits.ask _) fun transactions =>
          Emits.bind (Emits.forM fun _ _ => emits_exec' nofun) fun _ => Emits.pure _
      · split
        · exact Emits.pure _
        · exact Emits.pure _

theorem emits_commitSigned {transaction : Transaction} {txid : String} {rawTx : Bytes}
    {status : ReqTxStatus} : (commitSigned userId transaction txid rawTx status).Emits KeepsLinks :=
  Emits.bind (Emits.ask _) fun _ => Emits.bind (emits_exec' nofun) fun _ =>
    Emits.bind (emits_exec' nofun) fun _ => Emits.bind (Emits.ask _) fun _ =>
      Emits.forM fun _ _ => emits_exec' nofun

theorem emits_required {α : Type} {value : Option α} {name : String} {K : Stmt → Prop} :
    (required value name).Emits K := by
  cases value with
  | none => exact Emits.fail _
  | some a => exact Emits.pure a

theorem emits_processAction {auth : String} {args : StorageProcessActionArgs} {random : String} :
    (processAction auth args random).Emits KeepsLinks := by
  refine Emits.bind (emits_findOrInsertUser auth fun _ => nofun) fun user => ?_
  obtain ⟨user, isNew⟩ := user
  show (storageProcessAction user.userId args random).Emits KeepsLinks
  unfold storageProcessAction
  split
  · exact Emits.bind emits_scheduleSendWith fun _ => Emits.pure _
  · refine Emits.bind emits_required fun reference => Emits.bind emits_required fun txid =>
      Emits.bind emits_required fun rawTx => Emits.bind (Emits.ask _) fun rows => ?_
    refine Emits.bind (Emits.ofExcept _) fun transaction => Emits.bind (Emits.ofExcept _) fun _ =>
      Emits.bind (Emits.ofExcept _) fun status =>
        Emits.bind (Emits.atomically emits_commitSigned) fun _ => ?_
    unfold sendBatch
    generalize (if args.isNoSend && !args.isSendWith then args.sendWith
      else args.sendWith ++ [txid]) = batch
    dsimp only
    split
    · exact Emits.pure _
    · exact Emits.bind emits_scheduleSendWith fun _ => Emits.pure _

end Calls

/-! ## The tags that were asked for -/

/-- An output has exactly the tags that were asked for, and a listing of its basket by some of them
finds it. -/
structure Queryable (s : Store) (spec : StorageCreateActionOutput) (o : Output) : Prop where
  linked : ∀ tag, tag ∈ getTagsForOutput s o.outputId ↔ tag ∈ spec.tags
  found : ∀ tags, tags ≠ [] → tags ⊆ spec.tags → ∃ listing : ListOutputsArgs,
    listing.basket = spec.basket.getD "" ∧ listing.tags = tags ∧
      o ∈ (selectOutputs s o.userId listing).1

/-- Every output that was asked for has its row, with the vout that the result reports, and is found
by its tags. -/
def TagsQueryable (args : StorageCreateActionArgs) (r : StorageCreateActionResult) (id : Nat)
    (s : Store) : Prop :=
  ∀ (i : Nat) spec, args.outputs[i]? = some spec →
    ∃ record, r.outputs[i]? = some record ∧ Asked spec record ∧
      ∃ o ∈ s.outputs, o.transactionId = id ∧ o.vout = record.vout ∧ Queryable s spec o

/-- The action is processed some time after its creation, and other things happen before and after. -/
inductive ProcessedLater (auth random : String) (r : StorageCreateActionResult) (id : Nat)
    (s : Store) : Store → Prop where
  | mk {s₁ s₂ s₃ : Store} {args : StorageProcessActionArgs} {result : StorageProcessActionResult}
      (before : Meanwhile id s s₁) (isNewTx : args.isNewTx = true)
      (reference : args.reference = some r.reference)
      (ran : (processAction auth args random).run Stmt.exec s₁ = (.ok result, s₂))
      (after : Meanwhile id s₂ s₃) : ProcessedLater auth random r id s s₃

section Tags

variable {sdk : Sdk} {s s' : Store} {id : Nat} {vouts : List Nat}

theorem Bare.processed {auth random : String} {r : StorageCreateActionResult}
    (h : Bare id vouts s) (hprocessed : ProcessedLater auth random r id s s') : Bare id vouts s' := by
  obtain ⟨before, _, _, ran, after⟩ := hprocessed
  exact (Bare.run emits_processAction (h.meanwhile before) ran).meanwhile after

theorem Unlinked.tags_nil (h : Unlinked id s) {o : Output} (ho : o ∈ s.outputs)
    (hid : o.transactionId = id) : getTagsForOutput s o.outputId = [] := by
  have hnone : findOutputTagMaps s o.outputId = [] := by
    refine Table.find_eq_nil.mpr fun m hm => ?_
    simp [h o ho hid m hm]
  rw [getTagsForOutput, hnone, List.flatMap_nil]

theorem Unlinked.queryable_iff (h : Unlinked id s) {spec : StorageCreateActionOutput} {o : Output}
    (ho : o ∈ s.outputs) (hid : o.transactionId = id) : Queryable s spec o ↔ spec.tags = [] := by
  have htags := h.tags_nil ho hid
  constructor
  · intro hqueryable
    refine List.eq_nil_iff_forall_not_mem.mpr fun tag htag => ?_
    have hlinked := (hqueryable.linked tag).mpr htag
    rw [htags] at hlinked
    cases hlinked
  · intro hspec
    refine ⟨fun tag => by rw [htags, hspec], fun tags hne hsub => ?_⟩
    rw [hspec] at hsub
    exact absurd (List.subset_nil.mp hsub) hne

/-- A createAction that succeeds leaves its outputs without tags. -/
theorem createAction_bare {entropy : Entropy} {auth : String} {args : StorageCreateActionArgs}
    {r : StorageCreateActionResult} {action : Transaction}
    (hcreate : (createAction sdk entropy auth args).run Stmt.exec s = (.ok r, s'))
    (haction : action ∈ s'.transactions) (hreference : action.reference = r.reference) :
    Bare action.transactionId (r.outputs.map (·.vout)) s' ∧
      ∀ (i : Nat) spec, args.outputs[i]? = some spec →
        ∃ record, r.outputs[i]? = some record ∧ Asked spec record := by
  obtain ⟨b, -, -, -, pending, hstored⟩ := createAction_stored hcreate haction hreference
  refine ⟨⟨?_, fun v hv => ?_⟩, fun i spec hspec => ?_⟩
  · have hcreated : wp Stmt.exec (createAction sdk entropy auth args)
        (fun r s' => r.reference = entropy.reference ∧
          ∃ userId id, Created s s' userId id entropy.reference) (fun _ => True) s :=
      wp_createAction (fun userId id r s' href hreports => ⟨href, userId, id, hreports.created⟩)
        fun _ _ => trivial
    obtain ⟨href, userId, id, hcreated⟩ := wp_ok hcreated hcreate
    obtain ⟨t, ht, hnew⟩ := hcreated.added
    obtain rfl : action = t :=
      s'.unique.transactions.eq haction ht (hreference.trans (href.trans hnew.reference.symm))
    -- no output had the new id before
    have hbefore : Bare action.transactionId [] s := by
      refine ⟨fun o ho hid => ?_, fun v hv => by cases hv⟩
      obtain ⟨t, ht, hkey⟩ := s.foreign.outputTransaction o ho
      exact absurd (hkey.trans (hid.trans hnew.transactionId)) (hcreated.fresh t ht)
    exact (Bare.run emits_createAction hbefore hcreate).unlinked
  · rw [hstored.outputs] at hv
    obtain ⟨record, hrecord, rfl⟩ := List.mem_map.mp hv
    obtain ⟨p, hp, rfl⟩ := List.mem_map.mp hrecord
    have hcoin : coin p.row ∈ ownCoins action.transactionId s' := by
      rw [hstored.stored]
      exact List.mem_map_of_mem hp
    obtain ⟨o, ho, heq⟩ := List.mem_map.mp hcoin
    obtain ⟨ho, hid⟩ := Table.mem_find.mp ho
    refine ⟨o, ho, beq_iff_eq.mp hid, ?_⟩
    rw [hstored.planned.sameVout p hp]
    exact congrArg Coin.vout heq
  · obtain ⟨changeOutputs, hrecords⟩ := hstored.records
    exact hrecords.getElem? hspec

end Tags

/-- Once an action is processed, its outputs are found by the tags that were asked for if and only if
none was asked for. -/
theorem created_tags_queryable (sdk : Sdk) (entropy : Entropy) (auth auth' random : String)
    (args : StorageCreateActionArgs) (s s₁ s₂ : Store) (r : StorageCreateActionResult)
    (hcreate : (createAction sdk entropy auth args).run Stmt.exec s = (.ok r, s₁))
    (action : Transaction) (haction : action ∈ s₁.transactions)
    (hreference : action.reference = r.reference)
    (hprocessed : ProcessedLater auth' random r action.transactionId s₁ s₂) :
    TagsQueryable args r action.transactionId s₂ ↔ ∀ spec ∈ args.outputs, spec.tags = [] := by
  obtain ⟨hcreated, hasked⟩ := createAction_bare hcreate haction hreference
  have hbare := hcreated.processed hprocessed
  constructor
  · intro hqueryable spec hspec
    obtain ⟨i, hi⟩ := List.mem_iff_getElem?.mp hspec
    obtain ⟨record, -, -, o, ho, hid, -, hfound⟩ := hqueryable i spec hi
    exact (hbare.unlinked.queryable_iff ho hid).mp hfound
  · intro hnone i spec hspec
    obtain ⟨record, hrecord, hof⟩ := hasked i spec hspec
    obtain ⟨o, ho, hid, hvout⟩ := hbare.there record.vout
      (List.mem_map_of_mem (List.mem_of_getElem? hrecord))
    exact ⟨record, hrecord, hof, o, ho, hid, hvout,
      (hbare.unlinked.queryable_iff ho hid).mpr (hnone spec (List.mem_of_getElem? hspec))⟩

/-- The payer's payment, into a basket. -/
def flatArgs (tags : List String) : StorageCreateActionArgs :=
  { description := "payment", inputs := []
    outputs := [{ lockingScript := bytesToHex Sample.bobScript, satoshis := 500
                  outputDescription := "payment", basket := some "flats", tags }]
    randomizeOutputs := some false, isNoSend := true }

def flatPlan (tags : List String) : Except WalletError StorageCreateActionResult × Store :=
  (createAction Sample.sdk Sample.entropy Sample.alice (flatArgs tags)).run Stmt.exec
    Sample.payer.store

def flatProcess : StorageProcessActionArgs :=
  { isNewTx := true, isSendWith := false, isNoSend := true, isDelayed := false
    reference := some Sample.entropy.reference, txid := some Sample.paymentTxid
    rawTx := some Sample.paymentRaw, sendWith := [] }

/-- The payment after its processing. -/
def flatPaid (tags : List String) : Except WalletError StorageProcessActionResult × Store :=
  (processAction Sample.alice flatProcess "").run Stmt.exec (flatPlan tags).2

def flatListing (tags : List String) : ListOutputsArgs :=
  { basket := "flats", tags, tagQueryMode := none, includes := none
    includeCustomInstructions := false, includeTags := true, includeLabels := false, limit := none
    offset := none }

theorem flatPlan_facts : ∀ tags ∈ [["rent"], []],
    (flatPlan tags).1.toOption.map (·.reference) = some Sample.entropy.reference ∧
    (∃ t ∈ (flatPlan tags).2.transactions, t.transactionId = 2 ∧
      t.reference = Sample.entropy.reference) ∧
    (flatPaid tags).1.toOption.isSome = true := by
  decide +kernel

/-- The call, its action and the processing. -/
theorem flat_run {tags : List String} (htags : tags ∈ [["rent"], []]) :
    ∃ r s₁, (createAction Sample.sdk Sample.entropy Sample.alice (flatArgs tags)).run Stmt.exec
        Sample.payer.store = (.ok r, s₁) ∧
      (∃ action ∈ s₁.transactions, action.transactionId = 2 ∧ action.reference = r.reference) ∧
      ProcessedLater Sample.alice "" r 2 s₁ (flatPaid tags).2 := by
  obtain ⟨hreference, ⟨action, hmem, hid, href⟩, hpaid⟩ := flatPlan_facts tags htags
  rcases hplan : flatPlan tags with ⟨e | r, s₁⟩
  · rw [hplan] at hreference
    cases hreference
  rw [hplan] at hreference hmem
  have hr : r.reference = Sample.entropy.reference := Option.some.inj hreference
  rcases hprocess : flatPaid tags with ⟨e | result, s₂⟩
  · rw [hprocess] at hpaid
    cases hpaid
  refine ⟨r, s₁, hplan, ⟨action, hmem, hid, href.trans hr.symm⟩, ?_⟩
  have hran : (processAction Sample.alice flatProcess "").run Stmt.exec s₁ = (.ok result, s₂) := by
    have hs₁ : s₁ = (flatPlan tags).2 := by rw [hplan]
    rw [hs₁]
    exact hprocess
  exact .mk .refl rfl (congrArg some hr.symm) hran .refl

theorem flatPaid_facts :
    (selectOutputs (flatPaid ["rent"]).2 1 (flatListing [])).1.map (·.satoshis) = [500] ∧
      (selectOutputs (flatPaid ["rent"]).2 1 (flatListing ["rent"])).1.map (·.satoshis) = [] ∧
      ∀ o ∈ (flatPaid ["rent"]).2.outputs,
        getTagsForOutput (flatPaid ["rent"]).2 o.outputId = [] := by
  decide +kernel

/-- An output that was asked for with a tag: its basket lists it, and under the tag nothing is
listed. -/
theorem rent_not_queryable :
    ∃ r s₁ s₂, (createAction Sample.sdk Sample.entropy Sample.alice (flatArgs ["rent"])).run Stmt.exec
        Sample.payer.store = (.ok r, s₁) ∧
      (∃ action ∈ s₁.transactions, action.transactionId = 2 ∧ action.reference = r.reference) ∧
      ProcessedLater Sample.alice "" r 2 s₁ s₂ ∧
      (selectOutputs s₂ 1 (flatListing [])).1.map (·.satoshis) = [500] ∧
      (selectOutputs s₂ 1 (flatListing ["rent"])).1.map (·.satoshis) = [] ∧
      ¬TagsQueryable (flatArgs ["rent"]) r 2 s₂ := by
  obtain ⟨r, s₁, hcreate, haction, hprocessed⟩ := flat_run List.mem_cons_self
  obtain ⟨hlisted, hempty, hnone⟩ := flatPaid_facts
  refine ⟨r, s₁, _, hcreate, haction, hprocessed, hlisted, hempty, fun hqueryable => ?_⟩
  obtain ⟨record, -, -, o, ho, -, -, hfound⟩ := hqueryable 0 _ rfl
  have hrent := (hfound.linked "rent").mpr (List.mem_singleton.mpr rfl)
  rw [hnone o ho] at hrent
  cases hrent

/-- Without tags there is nothing to find. -/
theorem created_tags_queryable_plain :
    ∃ r s₁, (createAction Sample.sdk Sample.entropy Sample.alice (flatArgs [])).run Stmt.exec
        Sample.payer.store = (.ok r, s₁) ∧ TagsQueryable (flatArgs []) r 2 (flatPaid []).2 := by
  obtain ⟨r, s₁, hcreate, ⟨action, hmem, hid, href⟩, hprocessed⟩ := flat_run (List.mem_cons_of_mem ["rent"] List.mem_cons_self)
  refine ⟨r, s₁, hcreate, ?_⟩
  rw [← hid] at hprocessed ⊢
  refine (created_tags_queryable Sample.sdk Sample.entropy Sample.alice Sample.alice "" (flatArgs [])
    Sample.payer.store s₁ _ r hcreate action hmem href hprocessed).mpr fun spec hspec => ?_
  rw [List.mem_singleton.mp hspec]

end WalletToolbox.Storage
