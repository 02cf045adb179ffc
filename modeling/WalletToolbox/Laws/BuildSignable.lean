import Mathlib.Data.List.Nodup
import Mathlib.Data.List.Perm.Subperm
import Mathlib.Tactic.IntervalCases
import WalletToolbox.Laws.Provider
import WalletToolbox.Sample
import WalletToolbox.Signer.BuildSignable

/-! # Storage cannot redirect outputs

Whatever storage answers, a transaction that is built has the caller's outputs as they were
requested, change to the client's own keys, and at most one small commission.
The request is compared by position and the transaction is assembled by vout: the two agree because
the vouts of an answer that passes are exactly the positions, in another order. -/

namespace WalletToolbox.Signer

open WalletToolbox.Storage

/-! ## Hex text -/

theorem hexValue_toLower (c : Char) : hexValue c.toLower = hexValue c := by
  by_cases hupper : 65 ≤ c.toNat ∧ c.toNat ≤ 90
  · obtain ⟨n, hn⟩ : ∃ n, c.toNat = n := ⟨_, rfl⟩
    have hc : c = Char.ofNat n := by rw [← hn, Char.ofNat_toNat]
    rw [hn] at hupper
    obtain ⟨hlo, hhi⟩ := hupper
    subst hc
    interval_cases n <;> decide
  · have hsame : c.toLower = c := by
      unfold Char.toLower
      split
      · rename_i h
        exact absurd h hupper
      · rfl
    rw [hsame]

theorem hexValue_hexDigit {n : Nat} (h : n < 16) : hexValue (hexDigit n) = some n := by
  interval_cases n <;> decide

/-- Two characters whose lowercase forms are the digits of a byte. -/
theorem hexPair_of_lower {a b : Char} {byte : UInt8} (ha : a.toLower = hexDigit (byte.toNat / 16))
    (hb : b.toLower = hexDigit (byte.toNat % 16)) : hexPair a b = some byte := by
  have hlt := byte.toNat_lt
  have hhigh : hexValue a = some (byte.toNat / 16) := by
    rw [← hexValue_toLower, ha, hexValue_hexDigit (by omega)]
  have hlow : hexValue b = some (byte.toNat % 16) := by
    rw [← hexValue_toLower, hb, hexValue_hexDigit (by omega)]
  simp only [hexPair, hhigh, hlow, Nat.div_add_mod, UInt8.ofNat_toNat]

/-- Text that is the hex of some bytes up to case decodes to them, with either decoder. -/
theorem decode_of_lower {bytes : Bytes} {chars : List Char} (i : Nat)
    (h : bytes.flatMap (fun b => [hexDigit (b.toNat / 16), hexDigit (b.toNat % 16)]) =
      chars.map Char.toLower) :
    hexBytes chars = bytes ∧ strictHexBytes i chars = .ok bytes := by
  induction bytes generalizing chars i with
  | nil =>
    have hnil : chars = [] := List.map_eq_nil_iff.mp h.symm
    subst hnil
    exact ⟨rfl, rfl⟩
  | cons byte rest ih =>
    match chars, h with
    | a :: b :: chars, h =>
      simp only [List.flatMap_cons, List.map_cons, List.cons_append, List.nil_append,
        List.cons.injEq] at h
      obtain ⟨ha, hb, hrest⟩ := h
      obtain ⟨hlenient, hstrict⟩ := ih (i + 2) hrest
      have hpair := hexPair_of_lower ha.symm hb.symm
      constructor
      · simp only [hexBytes, hpair, hlenient, Option.toList_some, List.singleton_append]
      · simp only [strictHexBytes, hpair, hstrict, Except.map]
    | [a], h => simp at h
    | [], h => simp at h

/-- A script source whose decoder reads hex in either case. -/
def ScriptSource.Reads (source : ScriptSource) : Prop :=
  ∀ bytes text, bytesToHex bytes = toLowercase text → source.decode text = .ok bytes

theorem utf8Chars_of_ascii {text : String} (h : ∀ c ∈ text.toList, c.toNat < 128) :
    utf8Chars text = text.toList := by
  have hbytes : text.toUTF8.data.toList = text.toList.flatMap String.utf8EncodeChar := by
    have hencoded := congrArg (·.data.toList) (String.utf8Encode_toList (b := text))
    simpa [List.utf8Encode] using hencoded.symm
  unfold utf8Chars
  rw [hbytes, List.map_flatMap]
  refine (List.flatMap_congr fun c hc => ?_).trans (List.flatMap_singleton' _)
  have hlt := h c hc
  have hle : c.val ≤ 127 := by rw [UInt32.le_iff_toNat_le]; exact Nat.le_of_lt_succ hlt
  rw [String.utf8EncodeChar_eq_singleton (by simp [Char.utf8Size, hle])]
  have hmod : c.toNat % 256 = c.toNat := Nat.mod_eq_of_lt (by omega)
  refine congrArg (fun c => [c]) (Eq.trans ?_ (Char.ofNat_toNat c))
  exact congrArg Char.ofNat hmod

theorem ascii_of_lower {c : Char} (h : c.toLower.toNat < 128) : c.toNat < 128 := by
  unfold Char.toLower at h
  split at h
  · rename_i hupper
    exact Nat.lt_of_le_of_lt hupper.2 (by decide)
  · exact h

theorem hexDigit_ascii (n : Nat) : (hexDigit n).toNat < 128 := by
  have hdigits : ('0' :: "0123456789abcdef".toList).all (·.toNat < 128) = true := by decide
  refine of_decide_eq_true (List.all_eq_true.mp hdigits _ ?_)
  unfold hexDigit
  rw [List.getD_eq_getElem?_getD]
  cases hget : "0123456789abcdef".toList[n]? with
  | none => exact List.mem_cons_self
  | some c => exact List.mem_cons_of_mem _ (List.mem_of_getElem? hget)

/-- Text that reads as hex in lower case is ASCII. -/
theorem chars_of_hex {bytes : Bytes} {text : String} (h : bytesToHex bytes = toLowercase text) :
    bytes.flatMap (fun b => [hexDigit (b.toNat / 16), hexDigit (b.toNat % 16)]) =
      (utf8Chars text).map Char.toLower := by
  have hlists := congrArg String.toList h
  simp only [bytesToHex, toLowercase, String.toList_ofList] at hlists
  rw [utf8Chars_of_ascii fun c hc => ascii_of_lower ?_]
  · exact hlists
  · have hmem : c.toLower ∈ text.toList.map Char.toLower := List.mem_map_of_mem hc
    rw [← hlists] at hmem
    obtain ⟨b, -, hb⟩ := List.mem_flatMap.mp hmem
    rcases List.mem_pair.mp hb with hc | hc
    · exact hc ▸ hexDigit_ascii _
    · exact hc ▸ hexDigit_ascii _

/-! ## What the checks establish -/

theorem forM_except_ok {α : Type} {f : α → Except WalletError Unit} {xs : List α}
    (h : xs.forM f = .ok ()) : ∀ x ∈ xs, f x = .ok () := by
  induction xs with
  | nil => exact nofun
  | cons x xs ih =>
    obtain ⟨_, hx, hrest⟩ := except_bind_ok (x := f x) h
    intro y hy
    rcases List.mem_cons.mp hy with rfl | hy
    · exact hx
    · exact ih hrest y hy

/-- A requested output and the storage output at its position. -/
structure Echoed (requested : CreateActionOutput) (provided : StorageCreateTransactionSdkOutput) :
    Prop where
  notChange : isChange provided = false
  script : ∃ bytes, requested.lockingScript = some bytes ∧
    bytesToHex bytes = toLowercase provided.lockingScript
  satoshis : provided.satoshis = requested.satoshis

theorem verifyRequestedOutput_ok {storageOutputs : List StorageCreateTransactionSdkOutput}
    {requested : CreateActionOutput} {i : Nat}
    (h : verifyRequestedOutput storageOutputs requested i = .ok ()) :
    ∃ provided, storageOutputs[i]? = some provided ∧ Echoed requested provided := by
  unfold verifyRequestedOutput at h
  split at h
  · cases h
  · rename_i provided hprovided
    split at h
    · cases h
    · rename_i hclass
      dsimp only at h
      split at h
      · cases h
      · rename_i hscript
        split at h
        · cases h
        · rename_i hsatoshis
          rw [not_or] at hclass hscript
          refine ⟨provided, hprovided, ?_, ?_, by simpa using hsatoshis⟩
          · simp only [isChange, Bool.and_eq_false_iff, beq_eq_false_iff_ne]
            exact .inl hclass.2
          · cases hlocking : requested.lockingScript with
            | none => simp [hlocking] at hscript
            | some bytes =>
              refine ⟨bytes, rfl, ?_⟩
              simpa [hlocking] using hscript.2

theorem verifyRequested_ok {storageOutputs : List StorageCreateTransactionSdkOutput}
    {outputs : List CreateActionOutput}
    (h : verifyRequestedOutputsUnchanged storageOutputs outputs = .ok ()) :
    ∀ (i : Nat) (requested : CreateActionOutput), outputs[i]? = some requested →
      ∃ provided, storageOutputs[i]? = some provided ∧ Echoed requested provided := by
  intro i requested hi
  refine verifyRequestedOutput_ok (forM_except_ok h (requested, i) ?_)
  rw [List.mem_zipIdx_iff_getElem?]
  exact hi

theorem verifyUnrequested_fold {rest : List (StorageCreateTransactionSdkOutput × Nat)} {count r : Nat}
    (hcount : count ≤ 1)
    (h : rest.foldlM (fun count x => verifyUnrequestedOutput count x.1 x.2) count = .ok r) :
    r ≤ 1 ∧ r = count + (rest.filter fun x => !isChange x.1).length ∧
      ∀ x ∈ rest, isChange x.1 = true ∨ x.1.satoshis ≤ maxStorageCommissionSatoshis := by
  induction rest generalizing count with
  | nil =>
    cases h
    exact ⟨hcount, rfl, nofun⟩
  | cons x rest ih =>
    rw [List.foldlM_cons] at h
    obtain ⟨count', hx, hrest⟩ := except_bind_ok h
    unfold verifyUnrequestedOutput at hx
    by_cases hchange : isChange x.1 = true
    · rw [if_pos hchange] at hx
      cases hx
      obtain ⟨hr, heq, hall⟩ := ih hcount hrest
      refine ⟨hr, by simpa [hchange] using heq, fun y hy => ?_⟩
      rcases List.mem_cons.mp hy with rfl | hy
      · exact .inl hchange
      · exact hall y hy
    · rw [if_neg hchange] at hx
      split at hx
      · split at hx
        · cases hx
        · rename_i hfirst
          split at hx
          · cases hx
          · rename_i hbound
            cases hx
            obtain ⟨hr, heq, hall⟩ := ih (by omega) hrest
            refine ⟨hr, ?_, fun y hy => ?_⟩
            · simp only [Bool.not_eq_true] at hchange
              simp only [List.filter_cons, hchange, Bool.not_false, if_true, List.length_cons]
              omega
            · rcases List.mem_cons.mp hy with rfl | hy
              · exact .inr (UInt64.not_lt.mp hbound)
              · exact hall y hy
      · cases hx

/-- Beyond the request there is change, and at most one output that is not, with a small amount. -/
theorem verifyUnrequested_ok {storageOutputs : List StorageCreateTransactionSdkOutput}
    {outputs : List CreateActionOutput}
    (h : verifyUnrequestedOutputsAreChangeOrCommission storageOutputs outputs = .ok ()) :
    ((storageOutputs.drop outputs.length).filter fun out => !isChange out).length ≤ 1 ∧
      ∀ out ∈ storageOutputs.drop outputs.length,
        isChange out = true ∨ out.satoshis ≤ maxStorageCommissionSatoshis := by
  obtain ⟨r, hfold, -⟩ := except_bind_ok h
  obtain ⟨hr, heq, hall⟩ := verifyUnrequested_fold (Nat.zero_le _) hfold
  have hfst : (storageOutputs.zipIdx.drop outputs.length).map Prod.fst =
      storageOutputs.drop outputs.length := by
    rw [List.map_drop, List.zipIdx_map_fst]
  rw [← hfst]
  constructor
  · rw [List.filter_map, List.length_map, Function.comp_def]
    omega
  · intro out hout
    obtain ⟨x, hx, rfl⟩ := List.mem_map.mp hout
    exact hall x hx

theorem echoed_of_position {storageOutputs : List StorageCreateTransactionSdkOutput}
    {outputs : List CreateActionOutput}
    (h : ∀ (i : Nat) (requested : CreateActionOutput), outputs[i]? = some requested →
      ∃ provided, storageOutputs[i]? = some provided ∧ Echoed requested provided) :
    List.Forall₂ Echoed outputs (storageOutputs.take outputs.length) := by
  induction outputs generalizing storageOutputs with
  | nil => exact .nil
  | cons requested outputs ih =>
    obtain ⟨provided, hprovided, hechoed⟩ := h 0 requested rfl
    match storageOutputs, hprovided with
    | _ :: rest, hprovided =>
      cases hprovided
      exact .cons hechoed (ih fun i r hi => h (i + 1) r hi)

/-! ## What is assembled -/

/-- The SDK's builder functions append. -/
structure TxBuilder.Appends (builder : TxBuilder) : Prop where
  output : ∀ {tx o tx'}, builder.addOutput tx o = .ok tx' → tx'.outputs = tx.outputs ++ [o]
  input : ∀ {tx i tx'}, builder.addInput tx i = .ok tx' → tx'.outputs = tx.outputs

/-- The SDK's builder functions take outputs that have an amount and inputs that name their source. -/
structure TxBuilder.Accepts (builder : TxBuilder) : Prop where
  output : ∀ tx (o : TransactionOutput), o.satoshis ≠ none → ∃ tx', builder.addOutput tx o = .ok tx'
  input : ∀ tx (i : TransactionInput), i.sourceTxid ≠ none → ∃ tx', builder.addInput tx i = .ok tx'

theorem mapM_except_ok {α β : Type} {f : α → Except WalletError β} {xs : List α} {ys : List β}
    (h : xs.mapM f = .ok ys) : List.Forall₂ (fun x y => f x = .ok y) xs ys := by
  induction xs generalizing ys with
  | nil =>
    cases h
    exact .nil
  | cons x xs ih =>
    rw [List.mapM_cons] at h
    obtain ⟨y, hy, h⟩ := except_bind_ok h
    obtain ⟨rest, hrest, h⟩ := except_bind_ok h
    cases h
    exact .cons hy (ih hrest)

theorem forall₂_of_mem_left {α β : Type} {R : α → β → Prop} {xs : List α} {ys : List β}
    (h : List.Forall₂ R xs ys) {x : α} (hx : x ∈ xs) : ∃ y, R x y := by
  obtain ⟨i, hi, rfl⟩ := List.getElem_of_mem hx
  exact ⟨_, h.get hi (h.length_eq ▸ hi)⟩

/-- The index found for a vout is that of an output with this vout. -/
theorem voutToIndex_found {storageOutputs : List StorageCreateTransactionSdkOutput} {idxs : List Nat}
    (h : voutToIndex storageOutputs = .ok idxs) :
    List.Forall₂ (fun vout i => i < storageOutputs.length ∧
      storageOutputs[i]?.map (·.vout) = some vout) (List.range storageOutputs.length) idxs := by
  refine (mapM_except_ok h).imp fun vout i hi => ?_
  split at hi
  · rename_i j hj
    cases hi
    obtain ⟨hlt, hvout, -⟩ := List.findIdx?_eq_some_iff_getElem.mp hj
    refine ⟨hlt, ?_⟩
    rw [List.getElem?_eq_getElem hlt]
    exact congrArg some (beq_iff_eq.mp hvout)
  · cases hi

/-- The indices of the vouts are the positions, each once. -/
theorem voutToIndex_perm {storageOutputs : List StorageCreateTransactionSdkOutput} {idxs : List Nat}
    (h : voutToIndex storageOutputs = .ok idxs) :
    idxs.Perm (List.range storageOutputs.length) := by
  have hfound := voutToIndex_found h
  have hvouts : idxs.map (fun i => storageOutputs[i]?.map (·.vout)) =
      (List.range storageOutputs.length).map some := by
    rw [← List.forall₂_eq_eq_eq, List.forall₂_map_left_iff, List.forall₂_map_right_iff]
    exact hfound.flip.imp fun _ _ hi => hi.2
  have hnodup : idxs.Nodup := by
    have hmap : ((List.range storageOutputs.length).map some).Nodup :=
      List.nodup_range.map (Option.some_injective Nat)
    rw [← hvouts] at hmap
    exact hmap.of_map
  have hsubset : idxs ⊆ List.range storageOutputs.length := by
    intro i hi
    obtain ⟨_, hlt, -⟩ := forall₂_of_mem_left hfound.flip hi
    exact List.mem_range.mpr hlt
  exact (hnodup.subperm hsubset).perm_of_length_le hfound.length_eq.le

/-- The outputs that can be made of a list of storage outputs. -/
def madeOutputs (source : ScriptSource) (derivationPrefix : String)
    (storageOutputs : List StorageCreateTransactionSdkOutput) : List TransactionOutput :=
  storageOutputs.filterMap fun out => (makeOutput source derivationPrefix out).toOption

theorem filterMap_range_getElem? {α β : Type} (f : α → Option β) (xs : List α) :
    (List.range xs.length).filterMap (fun i => xs[i]?.bind f) = xs.filterMap f := by
  induction xs with
  | nil => rfl
  | cons x xs ih =>
    rw [List.length_cons, List.range_succ_eq_map, List.filterMap_cons, List.filterMap_map,
      List.filterMap_cons, ← ih]
    rfl

theorem addOutput_ok {builder : TxBuilder} (happends : builder.Appends) {label : String}
    {tx tx' : SdkTransaction} {o : TransactionOutput} (h : addOutput builder label tx o = .ok tx') :
    tx'.outputs = tx.outputs ++ [o] := by
  unfold addOutput at h
  split at h
  · rename_i hadd
    cases h
    exact happends.output hadd
  · cases h

theorem addInput_ok {builder : TxBuilder} (happends : builder.Appends) {label : String}
    {tx tx' : SdkTransaction} {i : TransactionInput} (h : addInput builder label tx i = .ok tx') :
    tx'.outputs = tx.outputs := by
  unfold addInput at h
  split at h
  · rename_i hadd
    cases h
    exact happends.input hadd
  · cases h

/-- What `add_outputs` does for the storage output at an index. -/
def addOutputAt (builder : TxBuilder) (source : ScriptSource) (derivationPrefix : String)
    (storageOutputs : List StorageCreateTransactionSdkOutput) (tx : SdkTransaction) (i : Nat) :
    Except WalletError SdkTransaction := do
  match storageOutputs[i]? with
  | some out =>
    let o ← makeOutput source derivationPrefix out
    addOutput builder "transaction" tx o
  | none => pure tx

theorem addOutputs_fold {builder : TxBuilder} (happends : builder.Appends) {source : ScriptSource}
    {derivationPrefix : String} {storageOutputs : List StorageCreateTransactionSdkOutput}
    {idxs : List Nat} {tx tx' : SdkTransaction}
    (h : idxs.foldlM (addOutputAt builder source derivationPrefix storageOutputs) tx = .ok tx') :
    tx'.outputs = tx.outputs ++ idxs.filterMap fun i =>
      storageOutputs[i]?.bind fun out => (makeOutput source derivationPrefix out).toOption := by
  induction idxs generalizing tx with
  | nil =>
    cases h
    exact (List.append_nil _).symm
  | cons i idxs ih =>
    rw [List.foldlM_cons] at h
    obtain ⟨tx₁, hone, hrest⟩ := except_bind_ok h
    rw [addOutputAt] at hone
    rw [ih hrest]
    cases hout : storageOutputs[i]? with
    | none =>
      rw [hout] at hone
      cases hone
      simp [hout]
    | some out =>
      rw [hout] at hone
      obtain ⟨o, ho, hadd⟩ := except_bind_ok hone
      have hmade : (makeOutput source derivationPrefix out).toOption = some o := by rw [ho]; rfl
      simp [addOutput_ok happends hadd, hout, hmade]

/-- A transaction gets an output for each storage output, in some order. -/
theorem addOutputs_ok {builder : TxBuilder} (happends : builder.Appends) {source : ScriptSource}
    {dcr : StorageCreateActionResult} {tx tx' : SdkTransaction} (hempty : tx.outputs = [])
    (h : addOutputs builder source dcr tx = .ok tx') :
    (dcr.outputs ≠ [] → tx'.outputs.Perm (madeOutputs source dcr.derivationPrefix dcr.outputs)) ∧
    (dcr.outputs = [] → ∃ o, tx'.outputs = [o] ∧ o.satoshis = some 0) := by
  obtain ⟨idxs, hidxs, h⟩ := except_bind_ok h
  obtain ⟨tx₁, hfold, h⟩ := except_bind_ok h
  have houtputs := addOutputs_fold happends hfold
  rw [hempty, List.nil_append] at houtputs
  have hperm := (voutToIndex_perm hidxs).filterMap fun i => dcr.outputs[i]?.bind fun out =>
    (makeOutput source dcr.derivationPrefix out).toOption
  rw [← houtputs, filterMap_range_getElem?] at hperm
  constructor
  · intro hsome
    rw [if_neg (by simpa using hsome)] at h
    cases h
    exact hperm
  · intro hnone
    rw [if_pos (by simp [hnone])] at h
    have hnil : tx₁.outputs = [] := by simpa [hnone] using hperm
    exact ⟨_, by rw [addOutput_ok happends h, hnil]; rfl, rfl⟩

theorem addStorageInput_ok {builder : TxBuilder} (happends : builder.Appends) {sdk : Sdk}
    {b b' : InputsBuilt} {input : Option ValidCreateActionInput × StorageCreateTransactionSdkInput}
    (h : addStorageInput builder sdk b input = .ok b') : b'.tx.outputs = b.tx.outputs := by
  unfold addStorageInput at h
  split at h
  · obtain ⟨tx, htx, h⟩ := except_bind_ok h
    cases h
    exact addInput_ok happends htx
  · split at h
    · cases h
    · obtain ⟨tx, htx, h⟩ := except_bind_ok h
      cases h
      exact addInput_ok happends htx

theorem addStorageInputs_ok {builder : TxBuilder} (happends : builder.Appends) {sdk : Sdk}
    {inputs : List (Option ValidCreateActionInput × StorageCreateTransactionSdkInput)}
    {b b' : InputsBuilt} (h : inputs.foldlM (addStorageInput builder sdk) b = .ok b') :
    b'.tx.outputs = b.tx.outputs := by
  induction inputs generalizing b with
  | nil =>
    cases h
    rfl
  | cons input inputs ih =>
    rw [List.foldlM_cons] at h
    obtain ⟨b₁, hone, hrest⟩ := except_bind_ok h
    rw [ih hrest, addStorageInput_ok happends hone]

/-! ## What is made -/

theorem makeOutput_ok {source : ScriptSource} {derivationPrefix : String}
    {out : StorageCreateTransactionSdkOutput} {o : TransactionOutput}
    (h : makeOutput source derivationPrefix out = .ok o) :
    o.satoshis = some out.satoshis ∧
      (isChange out = true → ∃ derivationSuffix, out.derivationSuffix = some derivationSuffix ∧
        source.changeLock derivationPrefix derivationSuffix = .ok o.lockingScript) := by
  unfold makeOutput at h
  dsimp only at h
  split at h
  · split at h
    · cases h
    · rename_i derivationSuffix hsuffix
      obtain ⟨script, hscript, h⟩ := except_bind_ok h
      cases h
      exact ⟨rfl, fun _ => ⟨derivationSuffix, hsuffix, hscript⟩⟩
  · rename_i hnot
    obtain ⟨script, hscript, h⟩ := except_bind_ok h
    cases h
    exact ⟨rfl, fun hchange => absurd hchange hnot⟩

/-- The output a request asks for. -/
def requestedOutput (requested : CreateActionOutput) : TransactionOutput :=
  { satoshis := some requested.satoshis, lockingScript := requested.lockingScript.getD []
    change := false }

theorem Echoed.makeOutput_eq {source : ScriptSource} (hreads : source.Reads)
    {derivationPrefix : String} {requested : CreateActionOutput}
    {provided : StorageCreateTransactionSdkOutput} (h : Echoed requested provided) :
    makeOutput source derivationPrefix provided = .ok (requestedOutput requested) := by
  obtain ⟨bytes, hbytes, hhex⟩ := h.script
  have hdecode : source.decode provided.lockingScript = .ok bytes := hreads bytes _ hhex
  simp only [makeOutput, h.notChange, Bool.false_eq_true, if_false, hdecode, requestedOutput, hbytes,
    Option.getD_some, h.satoshis]
  rfl

theorem madeOutputs_echoed {source : ScriptSource} (hreads : source.Reads)
    {derivationPrefix : String} {outputs : List CreateActionOutput}
    {provided : List StorageCreateTransactionSdkOutput} (h : List.Forall₂ Echoed outputs provided) :
    madeOutputs source derivationPrefix provided = outputs.map requestedOutput := by
  induction h with
  | nil => rfl
  | @cons requested out outputs provided hechoed _ ih =>
    have hmade : (makeOutput source derivationPrefix out).toOption =
        some (requestedOutput requested) := by
      rw [hechoed.makeOutput_eq hreads]
      rfl
    rw [madeOutputs, List.filterMap_cons, hmade, List.map_cons, ← ih]
    rfl

theorem mem_madeOutputs {source : ScriptSource} {derivationPrefix : String}
    {storageOutputs : List StorageCreateTransactionSdkOutput} {o : TransactionOutput} :
    o ∈ madeOutputs source derivationPrefix storageOutputs ↔
      ∃ out ∈ storageOutputs, makeOutput source derivationPrefix out = .ok o := by
  simp only [madeOutputs, List.mem_filterMap]
  refine exists_congr fun out => and_congr_right fun _ => ?_
  cases makeOutput source derivationPrefix out <;> simp [Except.toOption]

/-! ## The outputs of a built transaction -/

/-- The outputs are the caller's as requested, change locked to keys that the client derives, and at
most one further output with a small amount. -/
structure NotRedirected (changeLock : String → String → Except WalletError Bytes)
    (dcr : StorageCreateActionResult) (requested : List CreateActionOutput)
    (outputs : List TransactionOutput) : Prop where
  scripts : ∀ r ∈ requested, r.lockingScript ≠ none
  parts : ∃ change extra : List TransactionOutput,
    outputs.Perm (requested.map requestedOutput ++ (change ++ extra)) ∧
    (∀ o ∈ change, ∃ out ∈ dcr.outputs, ∃ derivationSuffix,
      out.derivationSuffix = some derivationSuffix ∧
      changeLock dcr.derivationPrefix derivationSuffix = .ok o.lockingScript) ∧
    extra.length ≤ 1 ∧ ∀ o ∈ extra, ∃ satoshis, o.satoshis = some satoshis ∧ satoshis ≤ 500000

theorem madeOutputs_notRedirected {source : ScriptSource} (hreads : source.Reads)
    {dcr : StorageCreateActionResult} {args : ValidCreateActionArgs} {outputs : List TransactionOutput}
    (hrequested : verifyRequestedOutputsUnchanged dcr.outputs args.outputs = .ok ())
    (hrest : verifyUnrequestedOutputsAreChangeOrCommission dcr.outputs args.outputs = .ok ())
    (hperm : outputs.Perm (madeOutputs source dcr.derivationPrefix dcr.outputs)) :
    NotRedirected source.changeLock dcr args.outputs outputs := by
  have hechoed := echoed_of_position (verifyRequested_ok hrequested)
  obtain ⟨hone, hsmall⟩ := verifyUnrequested_ok hrest
  generalize hfurther : dcr.outputs.drop args.outputs.length = further at hone hsmall
  have hmem : ∀ out ∈ further, out ∈ dcr.outputs := by
    intro out hout
    rw [← hfurther] at hout
    exact List.mem_of_mem_drop hout
  have hsplit : madeOutputs source dcr.derivationPrefix dcr.outputs =
      args.outputs.map requestedOutput ++ madeOutputs source dcr.derivationPrefix further := by
    rw [← madeOutputs_echoed hreads hechoed, ← hfurther]
    simp only [madeOutputs]
    rw [← List.filterMap_append, List.take_append_drop]
  have hclasses := ((List.filter_append_perm isChange further).symm.filterMap fun out =>
    (makeOutput source dcr.derivationPrefix out).toOption)
  rw [List.filterMap_append] at hclasses
  constructor
  · intro r hr
    obtain ⟨provided, hprovided⟩ := forall₂_of_mem_left hechoed hr
    obtain ⟨bytes, hbytes, -⟩ := hprovided.script
    rw [hbytes]
    exact nofun
  · refine ⟨madeOutputs source dcr.derivationPrefix (further.filter isChange),
      madeOutputs source dcr.derivationPrefix (further.filter fun out => !isChange out),
      (hperm.trans (hsplit ▸ .refl _)).trans (hclasses.append_left _), ?_, ?_, ?_⟩
    · intro o ho
      obtain ⟨out, hout, hmake⟩ := mem_madeOutputs.mp ho
      obtain ⟨hin, hchange⟩ := List.mem_filter.mp hout
      exact ⟨out, hmem out hin, (makeOutput_ok hmake).2 hchange⟩
    · exact (List.length_filterMap_le _ _).trans hone
    · intro o ho
      obtain ⟨out, hout, hmake⟩ := mem_madeOutputs.mp ho
      obtain ⟨hin, hnot⟩ := List.mem_filter.mp hout
      refine ⟨out.satoshis, (makeOutput_ok hmake).1, ?_⟩
      rcases hsmall out hin with hchange | hle
      · simp [hchange] at hnot
      · exact hle

/-- A transaction that is built passed both checks, and has the outputs and the inputs that were added. -/
theorem buildSignable_ok {builder : TxBuilder} {sdk : Sdk} {source : ScriptSource}
    {dcr : StorageCreateActionResult} {args : ValidCreateActionArgs} {tx : SdkTransaction}
    {amount : UInt64} {pending : List PendingStorageInput}
    (h : buildSignable builder sdk source dcr args = .ok (tx, amount, pending)) :
    verifyRequestedOutputsUnchanged dcr.outputs args.outputs = .ok () ∧
      verifyUnrequestedOutputsAreChangeOrCommission dcr.outputs args.outputs = .ok () ∧
      ∃ tx₁ built, addOutputs builder source dcr { version := dcr.version, lockTime := dcr.lockTime } =
          .ok tx₁ ∧
        (mergedInputs dcr.inputs args.inputs).foldlM (addStorageInput builder sdk) { tx := tx₁ } =
          .ok built ∧
        built.tx = tx ∧ built.pending = pending := by
  obtain ⟨_, hrequested, h⟩ := except_bind_ok h
  obtain ⟨_, hrest, h⟩ := except_bind_ok h
  obtain ⟨tx₁, hadd, h⟩ := except_bind_ok h
  obtain ⟨built, hinputs, h⟩ := except_bind_ok h
  cases h
  exact ⟨hrequested, hrest, tx₁, built, hadd, hinputs, rfl, rfl⟩

/-- The outputs of a built transaction are those that can be made of the storage outputs. -/
theorem buildSignable_made {builder : TxBuilder} (happends : builder.Appends) {sdk : Sdk}
    {source : ScriptSource} {dcr : StorageCreateActionResult} {args : ValidCreateActionArgs}
    {tx : SdkTransaction} {amount : UInt64} {pending : List PendingStorageInput}
    (h : buildSignable builder sdk source dcr args = .ok (tx, amount, pending)) :
    (dcr.outputs ≠ [] → tx.outputs.Perm (madeOutputs source dcr.derivationPrefix dcr.outputs)) ∧
    (dcr.outputs = [] → ∃ o, tx.outputs = [o] ∧ o.satoshis = some 0) := by
  obtain ⟨-, -, tx₁, built, hadd, hinputs, rfl, -⟩ := buildSignable_ok h
  rw [addStorageInputs_ok happends hinputs]
  exact addOutputs_ok happends rfl hadd

theorem buildSignable_outputs {builder : TxBuilder} (happends : builder.Appends) {sdk : Sdk}
    {source : ScriptSource} (hreads : source.Reads) {dcr : StorageCreateActionResult}
    {args : ValidCreateActionArgs} {tx : SdkTransaction} {amount : UInt64}
    {pending : List PendingStorageInput}
    (h : buildSignable builder sdk source dcr args = .ok (tx, amount, pending)) :
    (dcr.outputs ≠ [] → NotRedirected source.changeLock dcr args.outputs tx.outputs) ∧
    (dcr.outputs = [] → args.outputs = [] ∧ ∃ o, tx.outputs = [o] ∧ o.satoshis = some 0) := by
  obtain ⟨hsome, hnone⟩ := buildSignable_made happends h
  obtain ⟨hrequested, hrest, -⟩ := buildSignable_ok h
  refine ⟨fun hne => madeOutputs_notRedirected hreads hrequested hrest (hsome hne), fun hnil => ?_⟩
  refine ⟨?_, hnone hnil⟩
  have hechoed := (echoed_of_position (verifyRequested_ok hrequested)).length_eq
  rw [hnil, List.take_nil] at hechoed
  exact List.eq_nil_of_length_eq_zero hechoed

theorem lenient_reads (changeLock : String → String → Except WalletError Bytes) :
    ScriptSource.Reads { changeLock, decode := fun hex => .ok (hexToBytes hex) } :=
  fun _ _ h => congrArg Except.ok (decode_of_lower 0 (chars_of_hex h)).1

theorem strict_reads (changeLock : String → String → Except WalletError Bytes) :
    ScriptSource.Reads { changeLock, decode := fun hex => strictHexBytes 0 (utf8Chars hex) } :=
  fun _ _ h => (decode_of_lower 0 (chars_of_hex h)).2

/-- Whatever storage answers, with either build function: the caller's outputs are in the
transaction as requested, and nothing else but change and one small output can be. -/
theorem outputs_not_redirected (builder : TxBuilder) (happends : builder.Appends) (sdk : Sdk)
    (changeLock : String → String → Except WalletError Bytes) (dcr : StorageCreateActionResult)
    (args : ValidCreateActionArgs) (tx : SdkTransaction) (amount : UInt64)
    (pending : List PendingStorageInput)
    (h : buildSignableTransaction builder sdk changeLock dcr args = .ok (tx, amount, pending) ∨
      buildSignableTransactionWithProvider builder sdk changeLock dcr args =
        .ok (tx, amount, pending)) :
    (dcr.outputs ≠ [] → NotRedirected changeLock dcr args.outputs tx.outputs) ∧
    (dcr.outputs = [] → args.outputs = [] ∧ ∃ o, tx.outputs = [o] ∧ o.satoshis = some 0) := by
  rcases h with h | h
  · exact buildSignable_outputs happends (lenient_reads changeLock) h
  · exact buildSignable_outputs happends (strict_reads changeLock) h

/-- A builder that appends. -/
def appendingBuilder : TxBuilder where
  addInput tx input := .ok { tx with inputs := tx.inputs ++ [input] }
  addOutput tx o := .ok { tx with outputs := tx.outputs ++ [o] }

theorem appendingBuilder_appends : appendingBuilder.Appends :=
  ⟨fun h => by cases h; rfl, fun h => by cases h; rfl⟩

/-- A payment of 1000 satoshis to Bob. -/
def payBob : ValidCreateActionArgs :=
  { description := "payment", inputs := []
    outputs := [{ lockingScript := some Sample.bobScript, satoshis := 1000 }] }

/-- Storage's answer to it: the payment second in the transaction and its hex in capitals, change
first. -/
def payBobAnswer : StorageCreateActionResult :=
  { reference := "cmVm", version := 1, lockTime := 0, derivationPrefix := "cA=="
    inputBeef := none, noSendChangeOutputVouts := none
    inputs := []
    outputs := [
      { vout := 1, satoshis := 1000
        lockingScript := String.ofList ((bytesToHex Sample.bobScript).toList.map Char.toUpper)
        providedBy := .you, purpose := none, basket := none, tags := [], outputDescription := none
        derivationSuffix := none, customInstructions := none },
      { vout := 0, satoshis := 3990, lockingScript := "", providedBy := .storage
        purpose := some "change", basket := none, tags := [], outputDescription := none
        derivationSuffix := some "cw==", customInstructions := none }] }

/-- The lock of the change key, for the derivation texts of the answer. -/
def changeLockOf (derivationPrefix derivationSuffix : String) : Except WalletError Bytes :=
  if derivationPrefix = "cA==" ∧ derivationSuffix = "cw==" then .ok Sample.changeScript
  else .error (.internal "unknown key")

/-- Both functions build the payment from that answer, and the theorem applies to it. -/
theorem outputs_not_redirected_payment :
    ∃ tx amount pending,
      buildSignableTransactionWithProvider appendingBuilder Sample.sdk changeLockOf payBobAnswer
        payBob = .ok (tx, amount, pending) ∧
      buildSignableTransaction appendingBuilder Sample.sdk changeLockOf payBobAnswer payBob =
        .ok (tx, amount, pending) ∧
      tx.outputs = [
        { satoshis := some 3990, lockingScript := Sample.changeScript, change := true },
        { satoshis := some 1000, lockingScript := Sample.bobScript, change := false }] ∧
      NotRedirected changeLockOf payBobAnswer payBob.outputs tx.outputs := by
  refine ⟨{ version := 1, lockTime := 0, inputs := [], outputs := [
        { satoshis := some 3990, lockingScript := Sample.changeScript, change := true },
        { satoshis := some 1000, lockingScript := Sample.bobScript, change := false }] }, 0, [],
    by decide +kernel, by decide +kernel, rfl, ?_⟩
  refine (outputs_not_redirected appendingBuilder appendingBuilder_appends Sample.sdk changeLockOf
    payBobAnswer payBob _ 0 [] (.inl (by decide +kernel))).1 nofun

end WalletToolbox.Signer
