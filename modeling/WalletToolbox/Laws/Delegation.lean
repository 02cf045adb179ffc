import WalletToolbox.Laws.CallerInputs
import WalletToolbox.Lib.Guarded
import WalletToolbox.Signer.CompleteSigned

/-! # Local and delegated signing

The two builders and the two signing loops are the same programs but for their hex decoders: the local
one skips what is no hex, the provider's refuses it.
So with a provider for the same keys the two agree exactly when the scripts of storage's answer are
hex, as far as the local functions come to look at them. -/

namespace WalletToolbox.Signer

open WalletToolbox.Lib WalletToolbox.Storage

/-! ## The two decoders -/

/-- Pairs of hex digits, as `from_str_radix` reads them. -/
def HexText : List Char → Prop
  | [] => True
  | [_] => False
  | a :: b :: rest => (hexPair a b).isSome = true ∧ HexText rest

instance decidableHexText : (chars : List Char) → Decidable (HexText chars)
  | [] => isTrue trivial
  | [_] => isFalse id
  | _ :: _ :: rest => @instDecidableAnd _ _ _ (decidableHexText rest)

theorem strictHexBytes_guards (i : Nat) (chars : List Char) :
    Guards (HexText chars) (.ok (hexBytes chars)) (strictHexBytes i chars) := by
  induction i, chars using strictHexBytes.induct with
  | case1 i => exact .of_same trivial rfl
  | case2 i a => exact ⟨False.elim, fun _ => rfl⟩
  | case3 i a b rest hpair =>
    constructor
    · rintro ⟨hsome, -⟩
      rw [hpair] at hsome
      cases hsome
    · intro _
      rw [strictHexBytes, hpair]
      rfl
  | case4 i a b rest byte hpair ih =>
    have hstrict : strictHexBytes i (a :: b :: rest) = (strictHexBytes (i + 2) rest).map (byte :: ·) := by
      rw [strictHexBytes, hpair]
    have hlenient : hexBytes (a :: b :: rest) = byte :: hexBytes rest := by
      rw [hexBytes, hpair]
      rfl
    rw [hstrict, hlenient]
    have hmap : ∀ r : Except WalletError Bytes, (r.map (byte :: ·)).toOption = r.toOption.map (byte :: ·) := by
      intro r
      cases r <;> rfl
    constructor
    · rintro ⟨-, hrest⟩
      rw [hmap, ih.same hrest]
      rfl
    · intro hnot
      rw [hmap, ih.fails fun hrest => hnot ⟨by rw [hpair]; rfl, hrest⟩]
      rfl

/-! ## A provider for the same keys -/

variable {PubKey Key : Type} {keys : SigningKeys PubKey Key} {provider : SigningProvider PubKey}
  {identity : PubKey} {builder : TxBuilder} {sdk : Sdk} {dcr : StorageCreateActionResult}
  {args : ValidCreateActionArgs} {tx : SdkTransaction} {pending : List PendingStorageInput}

/-- The provider computes what the templates compute with the root key. -/
structure SigningProvider.Matches (provider : SigningProvider PubKey) (keys : SigningKeys PubKey Key)
    (identity : PubKey) : Prop where
  identityKey : provider.identityPublicKey = identity
  change : ∀ derivationPrefix derivationSuffix,
    (provider.deriveChangeLockingScript derivationPrefix derivationSuffix).toOption =
      (keys.lock derivationPrefix derivationSuffix identity).toOption
  sign : ∀ sighash sighashType derivationPrefix derivationSuffix unlocker,
    (provider.signInput sighash sighashType derivationPrefix derivationSuffix unlocker).toOption =
      (keys.unlock derivationPrefix derivationSuffix unlocker).toOption.map fun key =>
        keys.unlockingScript key sighash sighashType

section Build

/-- The scripts of the local builder. -/
def SigningKeys.scripts (keys : SigningKeys PubKey Key) (identity : PubKey) : ScriptSource where
  changeLock derivationPrefix derivationSuffix := keys.lock derivationPrefix derivationSuffix identity
  decode hex := .ok (hexToBytes hex)

/-- The scripts of the provider's builder. -/
def SigningProvider.scripts (provider : SigningProvider PubKey) : ScriptSource where
  changeLock := provider.deriveChangeLockingScript
  decode hex := strictHexBytes 0 (utf8Chars hex)

/-- An output whose script both builders find. -/
def OutputFits (out : StorageCreateTransactionSdkOutput) : Prop :=
  isChange out = false → HexText (utf8Chars out.lockingScript)

theorem makeOutput_guards (hprovider : provider.Matches keys identity) (derivationPrefix : String)
    (out : StorageCreateTransactionSdkOutput) :
    Guards (OutputFits out) (makeOutput (keys.scripts identity) derivationPrefix out)
      (makeOutput provider.scripts derivationPrefix out) := by
  unfold makeOutput
  dsimp only
  cases hchange : isChange out with
  | true =>
    have hfits : OutputFits out := fun h => by
      rw [hchange] at h
      cases h
    rw [if_pos rfl, if_pos rfl]
    cases out.derivationSuffix with
    | none => exact .of_same hfits rfl
    | some derivationSuffix => exact (Guards.of_same hfits (hprovider.change _ _)).andThen _
  | false =>
    rw [if_neg Bool.false_ne_true, if_neg Bool.false_ne_true]
    refine Guards.andThen ?_ _
    exact (strictHexBytes_guards 0 _).congr ⟨fun h _ => h, fun h => h hchange⟩

/-- The indices of the vouts reach every output. -/
theorem forall_voutToIndex_iff {storageOutputs : List StorageCreateTransactionSdkOutput} {idxs : List Nat}
    {P : StorageCreateTransactionSdkOutput → Prop} (h : voutToIndex storageOutputs = .ok idxs) :
    (∀ i ∈ idxs, ∀ out, storageOutputs[i]? = some out → P out) ↔ ∀ out ∈ storageOutputs, P out := by
  have hperm := voutToIndex_perm h
  constructor
  · intro hall out hout
    obtain ⟨i, hi, rfl⟩ := List.getElem_of_mem hout
    exact hall i (hperm.mem_iff.mpr (List.mem_range.mpr hi)) _ (List.getElem?_eq_getElem hi)
  · intro hall i _ out hout
    exact hall out (List.mem_of_getElem? hout)

theorem addOutputs_guards (hprovider : provider.Matches keys identity) :
    Guards (∀ out ∈ dcr.outputs, OutputFits out)
      (addOutputs builder (keys.scripts identity) dcr tx)
      (addOutputs builder provider.scripts dcr tx) := by
  unfold addOutputs
  refine Guards.step fun idxs hidxs => ?_
  refine Guards.congr ?_ (forall_voutToIndex_iff hidxs)
  refine (Guards.foldlM (fun tx i _ => ?_) tx).andThen _
  cases hout : dcr.outputs[i]? with
  | none => exact .of_same nofun rfl
  | some out =>
    refine ((makeOutput_guards hprovider _ out).andThen _).congr ?_
    exact ⟨fun h out' hsome => Option.some.inj hsome ▸ h, fun h => h out rfl⟩

theorem buildSignable_guards (hprovider : provider.Matches keys identity) :
    Guards (∀ out ∈ dcr.outputs, OutputFits out)
      (keys.buildSignableTransaction builder sdk identity dcr args)
      (provider.buildSignableTransaction builder sdk dcr args) := by
  show Guards _ (buildSignable builder sdk (keys.scripts identity) dcr args)
    (buildSignable builder sdk provider.scripts dcr args)
  unfold buildSignable
  refine Guards.step fun _ _ => Guards.step fun _ _ => ?_
  exact (addOutputs_guards hprovider).andThen _

end Build

/-! ## The signing loops -/

section Complete

variable {spends : List (Nat × SignActionSpend)}

theorem reported_toOption {α : Type} (label : String) (r : Except String α) :
    (reported label r).toOption = r.toOption := by
  cases r <;> rfl

/-- The tests that a local signature passes before the SDK signs. -/
def SigningKeys.Unlocks (keys : SigningKeys PubKey Key) (identity : PubKey)
    (pdi : PendingStorageInput) : Prop :=
  ∃ unlocker key, keys.unlockerPubKey identity pdi = .ok unlocker ∧
    keys.unlock pdi.derivationPrefix pdi.derivationSuffix unlocker = .ok key

theorem signPending_guards (hprovider : provider.Matches keys identity) (tx : SdkTransaction)
    (pdi : PendingStorageInput) :
    Guards (HexText (utf8Chars pdi.lockingScript)) (keys.signPending identity tx pdi)
      (provider.signPending keys tx pdi) := by
  unfold SigningKeys.signPending SigningProvider.signPending
  cases tx.inputs[pdi.vin]? with
  | none => exact ⟨fun _ => rfl, fun _ => rfl⟩
  | some input =>
    have hdecode := strictHexBytes_guards 0 (utf8Chars pdi.lockingScript)
    constructor
    · intro hhex
      have hscript : strictHexBytes 0 (utf8Chars pdi.lockingScript) = .ok (hexToBytes pdi.lockingScript) :=
        toOption_eq_some.mp (hdecode.same hhex)
      dsimp only
      rw [hscript, hprovider.identityKey]
      simp only [SigningKeys.sign, toOption_bind, reported_toOption, hprovider.sign]
      rw [show (Except.ok (hexToBytes pdi.lockingScript) : Except WalletError Bytes).toOption =
        some (hexToBytes pdi.lockingScript) from rfl, Option.bind_some]
      -- the provider hashes before it reads the sender's key, the local signer afterwards
      cases (keys.unlockerPubKey identity pdi).toOption with
      | none =>
        cases (keys.sighashPreimage (tx.setInput pdi.vin (input.withStub pdi (hexToBytes pdi.lockingScript)))
          pdi.vin sighashAllForkId pdi.sourceSatoshis (hexToBytes pdi.lockingScript)).toOption <;> rfl
      | some unlocker =>
        cases (keys.sighashPreimage (tx.setInput pdi.vin (input.withStub pdi (hexToBytes pdi.lockingScript)))
          pdi.vin sighashAllForkId pdi.sourceSatoshis (hexToBytes pdi.lockingScript)).toOption with
        | none =>
          rw [Option.bind_some]
          cases (keys.unlock pdi.derivationPrefix pdi.derivationSuffix unlocker).toOption <;> rfl
        | some preimage =>
          rw [Option.bind_some, Option.bind_some, Option.bind_some]
          cases (keys.unlock pdi.derivationPrefix pdi.derivationSuffix unlocker).toOption <;> rfl
    · intro hnot
      dsimp only
      rw [toOption_bind, hdecode.fails hnot, Option.bind_none]

theorem completeSigned_guards (hprovider : provider.Matches keys identity) :
    Guards (∀ pdi ∈ pending, HexText (utf8Chars pdi.lockingScript))
      (keys.completeSignedTransaction identity tx pending spends)
      (provider.completeSignedTransaction keys tx pending spends) := by
  unfold SigningKeys.completeSignedTransaction SigningProvider.completeSignedTransaction
  refine Guards.step fun tx₁ _ => ?_
  have hloop : Guards (∀ pdi ∈ pending, HexText (utf8Chars pdi.lockingScript))
      (pending.foldlM (keys.signPending identity) tx₁) (pending.foldlM (provider.signPending keys) tx₁) :=
    Guards.foldlM (fun tx pdi _ => signPending_guards hprovider tx pdi) tx₁
  refine (hloop.bind (d := True) fun tx₂ _ => .of_same trivial ?_).congr (and_iff_left trivial)
  rw [reported_toOption, reported_toOption]

end Complete

/-! ## When the local functions succeed -/

/-- A storage answer that the local builder makes a transaction of. -/
structure BuildsFrom (keys : SigningKeys PubKey Key) (identity : PubKey)
    (dcr : StorageCreateActionResult) (args : ValidCreateActionArgs) : Prop where
  requested : verifyRequestedOutputsUnchanged dcr.outputs args.outputs = .ok ()
  unrequested : verifyUnrequestedOutputsAreChangeOrCommission dcr.outputs args.outputs = .ok ()
  vouts : ∀ vout < dcr.outputs.length, ∃ out ∈ dcr.outputs, out.vout = vout
  change : ∀ out ∈ dcr.outputs, isChange out = true → ∃ derivationSuffix,
    out.derivationSuffix = some derivationSuffix ∧
      (keys.lock dcr.derivationPrefix derivationSuffix identity).isOk = true
  inputs : ∀ si ∈ dcr.inputs, args.inputs.length ≤ si.vin → si.outputType = "P2PKH"

section Success

theorem voutToIndex_isOk {storageOutputs : List StorageCreateTransactionSdkOutput} :
    (voutToIndex storageOutputs).isOk = true ↔
      ∀ vout < storageOutputs.length, ∃ out ∈ storageOutputs, out.vout = vout := by
  unfold voutToIndex
  rw [isOk_mapM]
  simp only [List.mem_range]
  refine forall₂_congr fun vout _ => ?_
  cases hfind : storageOutputs.findIdx? (·.vout == vout) with
  | none =>
    rw [List.findIdx?_eq_none_iff] at hfind
    constructor
    · intro h
      cases h
    · rintro ⟨out, hout, rfl⟩
      simpa using hfind out hout
  | some i =>
    obtain ⟨hlt, hvout, -⟩ := List.findIdx?_eq_some_iff_getElem.mp hfind
    exact iff_of_true rfl ⟨_, List.getElem_mem hlt, beq_iff_eq.mp hvout⟩

theorem addOutput_isOk (haccepts : builder.Accepts) {label : String} {o : TransactionOutput}
    (h : o.satoshis.isSome = true) : (addOutput builder label tx o).isOk = true := by
  obtain ⟨tx', htx'⟩ := haccepts.output tx o (Option.isSome_iff_ne_none.mp h)
  rw [addOutput, htx']
  rfl

theorem addInput_isOk (haccepts : builder.Accepts) {label : String} {i : TransactionInput}
    (h : i.sourceTxid.isSome = true) : (addInput builder label tx i).isOk = true := by
  obtain ⟨tx', htx'⟩ := haccepts.input tx i (Option.isSome_iff_ne_none.mp h)
  rw [addInput, htx']
  rfl

/-- The change key of an output can be derived. -/
def ChangeLocks (keys : SigningKeys PubKey Key) (identity : PubKey) (derivationPrefix : String)
    (out : StorageCreateTransactionSdkOutput) : Prop :=
  isChange out = true → ∃ derivationSuffix, out.derivationSuffix = some derivationSuffix ∧
    (keys.lock derivationPrefix derivationSuffix identity).isOk = true

theorem makeOutput_isOk {derivationPrefix : String} {out : StorageCreateTransactionSdkOutput} :
    (makeOutput (keys.scripts identity) derivationPrefix out).isOk = true ↔
      ChangeLocks keys identity derivationPrefix out := by
  unfold makeOutput ChangeLocks
  dsimp only
  cases isChange out with
  | false => exact iff_of_true rfl nofun
  | true =>
    rw [if_pos rfl]
    cases out.derivationSuffix with
    | none => exact iff_of_false nofun fun h => nomatch h rfl
    | some derivationSuffix =>
      rw [isOk_bind_total fun _ _ => rfl]
      exact ⟨fun h _ => ⟨derivationSuffix, rfl, h⟩, fun h => by
        obtain ⟨_, hsuffix, hlock⟩ := h rfl
        cases hsuffix
        exact hlock⟩

theorem addOutputs_isOk (haccepts : builder.Accepts) :
    (addOutputs builder (keys.scripts identity) dcr tx).isOk = true ↔
      (voutToIndex dcr.outputs).isOk = true ∧
        ∀ out ∈ dcr.outputs, ChangeLocks keys identity dcr.derivationPrefix out := by
  unfold addOutputs
  rw [isOk_bind, isOk_iff_exists]
  have hstep : ∀ (tx : SdkTransaction) (i : Nat), (addOutputAt builder (keys.scripts identity)
      dcr.derivationPrefix dcr.outputs tx i).isOk = true ↔
      ∀ out, dcr.outputs[i]? = some out → ChangeLocks keys identity dcr.derivationPrefix out := by
    intro tx i
    unfold addOutputAt
    cases dcr.outputs[i]? with
    | none => exact iff_of_true rfl (by rintro _ ⟨⟩)
    | some out =>
      rw [isOk_bind_total fun o ho => addOutput_isOk haccepts (by rw [(makeOutput_ok ho).1]; rfl),
        makeOutput_isOk]
      exact ⟨fun h out' hsome => Option.some.inj hsome ▸ h, fun h => h out rfl⟩
  have hrest : ∀ idxs, voutToIndex dcr.outputs = .ok idxs →
      ((idxs.foldlM (addOutputAt builder (keys.scripts identity) dcr.derivationPrefix dcr.outputs) tx
          >>= fun tx =>
        if dcr.outputs.isEmpty then
          addOutput builder "fallback transaction" tx
            { satoshis := some 0, lockingScript := [0x00, 0x6a, 0x01, 0x2a], change := false }
        else
          pure tx).isOk = true ↔
      ∀ out ∈ dcr.outputs, ChangeLocks keys identity dcr.derivationPrefix out) := by
    intro idxs hidxs
    rw [isOk_bind_total fun tx' _ => by split; exact addOutput_isOk haccepts rfl; rfl,
      isOk_foldlM (I := fun _ => True) (fun _ _ _ _ _ => trivial) (fun tx _ i _ => hstep tx i) trivial]
    exact forall_voutToIndex_iff hidxs
  constructor
  · rintro ⟨idxs, hidxs, hok⟩
    exact ⟨⟨idxs, hidxs⟩, (hrest idxs hidxs).mp hok⟩
  · rintro ⟨⟨idxs, hidxs⟩, hall⟩
    exact ⟨idxs, hidxs, (hrest idxs hidxs).mpr hall⟩

/-- The storage inputs that the wallet signs for are of the one type that it can sign. -/
def Signable (callers : List ValidCreateActionInput) (si : StorageCreateTransactionSdkInput) : Prop :=
  callers.length ≤ si.vin → si.outputType = "P2PKH"

theorem addStorageInputs_isOk (haccepts : builder.Accepts) (b : InputsBuilt) :
    ((mergedInputs dcr.inputs args.inputs).foldlM (addStorageInput builder sdk) b).isOk = true ↔
      ∀ si ∈ dcr.inputs, Signable args.inputs si := by
  rw [mergedInputs_eq, isOk_foldlM (I := fun _ => True)
    (c := fun input => input.1 = none → input.2.outputType = "P2PKH") (fun _ _ _ _ _ => trivial)
    (fun b _ input _ => ?_) trivial]
  · simp only [List.forall_mem_map, List.getElem?_eq_none_iff]
    exact ⟨fun h si hsi => h si (inOrder_perm.mem_iff.mpr hsi),
      fun h si hsi => h si (inOrder_perm.mem_iff.mp hsi)⟩
  · obtain ⟨ai | _, si⟩ := input
    · unfold addStorageInput
      dsimp only
      by_cases htype : si.outputType = "P2PKH"
      · rw [if_neg (not_not.mpr htype), isOk_bind_total fun _ _ => rfl]
        exact iff_of_true (addInput_isOk haccepts rfl) fun _ => htype
      · rw [if_pos htype]
        exact iff_of_false nofun fun h => htype (h rfl)
    · refine iff_of_true ?_ nofun
      exact (isOk_bind_total fun _ _ => rfl).mpr (addInput_isOk haccepts rfl)

/-- The local builder succeeds on the answers that it builds from. -/
theorem buildSignable_isOk (haccepts : builder.Accepts) :
    (keys.buildSignableTransaction builder sdk identity dcr args).isOk = true ↔
      BuildsFrom keys identity dcr args := by
  show (buildSignable builder sdk (keys.scripts identity) dcr args).isOk = true ↔ _
  unfold buildSignable
  simp only [isOk_bind]
  constructor
  · rintro ⟨_, hrequested, _, hunrequested, tx, hadd, built, hinputs, -⟩
    obtain ⟨hvouts, hchange⟩ := (addOutputs_isOk haccepts).mp (isOk_iff_exists.mpr ⟨tx, hadd⟩)
    exact ⟨hrequested, hunrequested, voutToIndex_isOk.mp hvouts, hchange,
      (addStorageInputs_isOk haccepts _).mp (isOk_iff_exists.mpr ⟨built, hinputs⟩)⟩
  · intro h
    have houtputs : (addOutputs builder (keys.scripts identity) dcr
        { version := dcr.version, lockTime := dcr.lockTime }).isOk = true :=
      (addOutputs_isOk haccepts).mpr ⟨voutToIndex_isOk.mpr h.vouts, h.change⟩
    obtain ⟨tx, hadd⟩ := isOk_iff_exists.mp houtputs
    have hinputs : ((mergedInputs dcr.inputs args.inputs).foldlM (addStorageInput builder sdk)
        { tx }).isOk = true := (addStorageInputs_isOk haccepts _).mpr h.inputs
    obtain ⟨built, hinputs⟩ := isOk_iff_exists.mp hinputs
    exact ⟨(), h.requested, (), h.unrequested, tx, hadd, built, hinputs, rfl⟩

/-! ## The inputs to sign -/

/-- The record that is kept of a storage input. -/
structure RecordOf (si : StorageCreateTransactionSdkInput) (pdi : PendingStorageInput) : Prop where
  derivationPrefix : pdi.derivationPrefix = si.derivationPrefix.getD ""
  derivationSuffix : pdi.derivationSuffix = si.derivationSuffix.getD ""
  unlockerPubKey : pdi.unlockerPubKey = si.senderIdentityKey
  lockingScript : pdi.lockingScript = si.sourceLockingScript

/-- The storage inputs of a merged list that belong to no caller's input. -/
def toSign (merged : List (Option ValidCreateActionInput × StorageCreateTransactionSdkInput)) :
    List StorageCreateTransactionSdkInput :=
  (merged.filter (·.1.isNone)).map (·.2)

theorem addStorageInput_pending (hpush : builder.Pushes)
    {input : Option ValidCreateActionInput × StorageCreateTransactionSdkInput} {b b' : InputsBuilt}
    (h : addStorageInput builder sdk b input = .ok b') :
    ∃ new, b'.pending = b.pending ++ new ∧ List.Forall₂ RecordOf (toSign [input]) new ∧
      ∀ pdi ∈ new, pdi.vin < b'.tx.inputs.length := by
  have hlength : b'.tx.inputs.length = b.tx.inputs.length + 1 := by
    have hspends := congrArg List.length (addStorageInput_assembled hpush h).inputs
    simpa only [List.length_map, List.length_append, List.length_singleton] using hspends
  obtain ⟨ai | _, si⟩ := input
  · unfold addStorageInput at h
    dsimp only at h
    split at h
    · cases h
    · obtain ⟨tx₁, -, h⟩ := except_bind_ok h
      cases h
      refine ⟨_, rfl, .cons ⟨rfl, rfl, rfl, rfl⟩ .nil, fun pdi hpdi => ?_⟩
      rw [List.mem_singleton] at hpdi
      rw [hpdi, hlength]
      exact Nat.lt_succ_self _
  · obtain ⟨tx₁, -, h⟩ := except_bind_ok h
    cases h
    exact ⟨[], (List.append_nil _).symm, .nil, nofun⟩

theorem addStorageInputs_pending (hpush : builder.Pushes)
    {inputs : List (Option ValidCreateActionInput × StorageCreateTransactionSdkInput)}
    {b b' : InputsBuilt} (h : inputs.foldlM (addStorageInput builder sdk) b = .ok b') :
    ∃ new, b'.pending = b.pending ++ new ∧ List.Forall₂ RecordOf (toSign inputs) new ∧
      ∀ pdi ∈ new, pdi.vin < b'.tx.inputs.length := by
  induction inputs generalizing b with
  | nil =>
    cases h
    exact ⟨[], (List.append_nil _).symm, .nil, nofun⟩
  | cons input inputs ih =>
    rw [List.foldlM_cons] at h
    obtain ⟨b₁, hone, hrest⟩ := except_bind_ok h
    obtain ⟨first, hfirst, hrecords, hvins⟩ := addStorageInput_pending hpush hone
    obtain ⟨further, hfurther, hrecords', hvins'⟩ := ih hrest
    have hgrows : b₁.tx.inputs.length ≤ b'.tx.inputs.length := by
      have hspends := congrArg List.length (addStorageInputs_assembled hpush hrest).inputs
      simp only [List.length_map, List.length_append] at hspends
      omega
    refine ⟨first ++ further, ?_, ?_, fun pdi hpdi => ?_⟩
    · rw [hfurther, hfirst, List.append_assoc]
    · have hsplit : toSign (input :: inputs) = toSign [input] ++ toSign inputs := by
        rw [toSign, toSign, toSign, ← List.map_append, ← List.filter_append, List.singleton_append]
      rw [hsplit]
      exact List.rel_append hrecords hrecords'
    · rcases List.mem_append.mp hpdi with hpdi | hpdi
      · exact Nat.lt_of_lt_of_le (hvins pdi hpdi) hgrows
      · exact hvins' pdi hpdi

theorem mem_toSign {callers : List ValidCreateActionInput}
    {inputs : List StorageCreateTransactionSdkInput} {si : StorageCreateTransactionSdkInput} :
    si ∈ toSign (mergedInputs inputs callers) ↔ si ∈ inputs ∧ callers.length ≤ si.vin := by
  rw [mergedInputs_eq, toSign, List.filter_map, List.map_map, List.mem_map]
  simp only [List.mem_filter, Function.comp, Option.isNone_iff_eq_none, List.getElem?_eq_none_iff,
    inOrder_perm.mem_iff, exists_eq_right]

/-! ## Signing -/

/-- A transaction whose inputs all have a source and an unlocking script. -/
def Complete (tx : SdkTransaction) : Prop :=
  ∀ i ∈ tx.inputs, i.sourceTxid.isSome = true ∧ i.unlockingScript.isSome = true

/-- The SDK can hash and write such a transaction. -/
structure SigningKeys.Computes (keys : SigningKeys PubKey Key) : Prop where
  sighashPreimage : ∀ tx vin sighashType satoshis script, Complete tx → vin < tx.inputs.length →
    (keys.sighashPreimage tx vin sighashType satoshis script).isOk = true
  toBinary : ∀ tx, Complete tx → (keys.toBinary tx).isOk = true

theorem Complete.setInput (h : Complete tx) {vin : Nat} {input : TransactionInput}
    (hinput : input.sourceTxid.isSome = true ∧ input.unlockingScript.isSome = true) :
    Complete (tx.setInput vin input) := by
  intro i hi
  rcases List.mem_or_eq_of_mem_set hi with hi | rfl
  · exact h i hi
  · exact hinput

theorem length_setInput (vin : Nat) (input : TransactionInput) :
    (tx.setInput vin input).inputs.length = tx.inputs.length :=
  List.length_set

theorem Complete.getElem? (h : Complete tx) {vin : Nat} {input : TransactionInput}
    (hinput : tx.inputs[vin]? = some input) :
    input.sourceTxid.isSome = true ∧ input.unlockingScript.isSome = true :=
  h input (List.mem_of_getElem? hinput)

theorem addInput_complete (hpush : builder.Pushes) {label : String} {tx' : SdkTransaction}
    {i : TransactionInput} (htx : Complete tx)
    (hi : i.sourceTxid.isSome = true ∧ i.unlockingScript.isSome = true)
    (h : addInput builder label tx i = .ok tx') : Complete tx' := by
  unfold addInput at h
  split at h
  · rename_i hadd
    cases h
    rw [hpush.input hadd]
    intro j hj
    rcases List.mem_append.mp hj with hj | hj
    · exact htx j hj
    · rw [List.mem_singleton.mp hj]
      exact hi
  · cases h

theorem addStorageInputs_complete (hpush : builder.Pushes)
    {inputs : List (Option ValidCreateActionInput × StorageCreateTransactionSdkInput)}
    {b b' : InputsBuilt} (hb : Complete b.tx)
    (h : inputs.foldlM (addStorageInput builder sdk) b = .ok b') : Complete b'.tx := by
  induction inputs generalizing b with
  | nil =>
    cases h
    exact hb
  | cons input inputs ih =>
    rw [List.foldlM_cons] at h
    obtain ⟨b₁, hone, hrest⟩ := except_bind_ok h
    refine ih ?_ hrest
    obtain ⟨ai | _, si⟩ := input
    · unfold addStorageInput at hone
      dsimp only at hone
      split at hone
      · cases hone
      · obtain ⟨tx₁, hadd, hone⟩ := except_bind_ok hone
        cases hone
        exact addInput_complete hpush hb ⟨rfl, rfl⟩ hadd
    · obtain ⟨tx₁, hadd, hone⟩ := except_bind_ok hone
      cases hone
      exact addInput_complete hpush hb ⟨rfl, rfl⟩ hadd

/-- What the local builder hands to the signing loop. -/
structure Built (dcr : StorageCreateActionResult) (args : ValidCreateActionArgs) (tx : SdkTransaction)
    (pending : List PendingStorageInput) : Prop where
  complete : Complete tx
  length : tx.inputs.length = dcr.inputs.length
  records : List.Forall₂ RecordOf (toSign (mergedInputs dcr.inputs args.inputs)) pending
  vins : ∀ pdi ∈ pending, pdi.vin < tx.inputs.length

theorem buildSignable_built (hpush : builder.Pushes) {source : ScriptSource} {amount : UInt64}
    (h : buildSignable builder sdk source dcr args = .ok (tx, amount, pending)) :
    Built dcr args tx pending := by
  have hlength : tx.inputs.length = dcr.inputs.length := by
    have hspends := congrArg List.length (buildSignable_assembled hpush h).2.2
    rw [List.length_map, slots, List.length_map, inOrder_perm.length_eq] at hspends
    exact hspends
  obtain ⟨-, -, tx₁, built, hadd, hinputs, rfl, rfl⟩ := buildSignable_ok h
  have hnone : tx₁.inputs = [] := by
    have hspends := (addOutputs_assembled hpush hadd).inputs
    rw [List.map_nil, List.nil_append, List.map_eq_nil_iff] at hspends
    exact hspends
  have hstart : Complete ({ tx := tx₁ } : InputsBuilt).tx := by
    intro i hi
    rw [hnone] at hi
    cases hi
  obtain ⟨new, hpending, hrecords, hvins⟩ := addStorageInputs_pending hpush hinputs
  rw [List.nil_append] at hpending
  rw [hpending]
  exact ⟨addStorageInputs_complete hpush hstart hinputs, hlength, hrecords, hvins⟩

theorem insertSpend_eq {entry : Nat × SignActionSpend} {tx' : SdkTransaction} (htx : Complete tx)
    (h : insertSpend tx entry = .ok tx') :
    Complete tx' ∧ tx'.inputs.length = tx.inputs.length := by
  unfold insertSpend at h
  split at h
  · cases h
  · rename_i input hinput
    cases h
    exact ⟨htx.setInput ⟨(htx.getElem? hinput).1, rfl⟩, length_setInput _ _⟩

theorem insertSpend_isOk {entry : Nat × SignActionSpend} :
    (insertSpend tx entry).isOk = true ↔ entry.1 < tx.inputs.length := by
  unfold insertSpend
  cases hinput : tx.inputs[entry.1]? with
  | none => exact iff_of_false nofun (Nat.not_lt.mpr (List.getElem?_eq_none_iff.mp hinput))
  | some input => exact iff_of_true rfl (List.getElem?_eq_some_iff.mp hinput).1

theorem signPending_eq {pdi : PendingStorageInput} {tx' : SdkTransaction} (htx : Complete tx)
    (h : keys.signPending identity tx pdi = .ok tx') :
    Complete tx' ∧ tx'.inputs.length = tx.inputs.length := by
  unfold SigningKeys.signPending at h
  split at h
  · cases h
  · rename_i input hinput
    obtain ⟨unlocker, -, h⟩ := except_bind_ok h
    obtain ⟨key, -, h⟩ := except_bind_ok h
    obtain ⟨script, -, h⟩ := except_bind_ok h
    cases h
    have hnamed := htx.getElem? hinput
    have hstub : Complete (tx.setInput pdi.vin (input.withStub pdi (hexToBytes pdi.lockingScript))) :=
      htx.setInput hnamed
    refine ⟨hstub.setInput ⟨(htx.getElem? hinput).1, rfl⟩, ?_⟩
    rw [length_setInput, length_setInput]

theorem signPending_isOk (hcomputes : keys.Computes) {pdi : PendingStorageInput} (htx : Complete tx)
    (hvin : pdi.vin < tx.inputs.length) :
    (keys.signPending identity tx pdi).isOk = true ↔ keys.Unlocks identity pdi := by
  unfold SigningKeys.signPending
  rcases hinput : tx.inputs[pdi.vin]? with _ | input
  · rw [List.getElem?_eq_none_iff] at hinput
    omega
  · dsimp only
    have hnamed := htx.getElem? hinput
    have hstub : Complete (tx.setInput pdi.vin (input.withStub pdi (hexToBytes pdi.lockingScript))) :=
      htx.setInput hnamed
    have hsigns : ∀ key, (keys.sign (tx.setInput pdi.vin (input.withStub pdi (hexToBytes pdi.lockingScript)))
        pdi.vin key pdi.sourceSatoshis (hexToBytes pdi.lockingScript)).isOk = true := by
      intro key
      unfold SigningKeys.sign
      refine (isOk_bind_total fun _ _ => rfl).mpr (hcomputes.sighashPreimage _ _ _ _ _ hstub ?_)
      rwa [length_setInput]
    rw [isOk_bind, SigningKeys.Unlocks]
    refine exists_congr fun unlocker => ?_
    rw [isOk_bind, ← exists_and_left]
    refine exists_congr fun key => and_congr_right fun _ => and_iff_left ?_
    obtain ⟨script, hscript⟩ := isOk_iff_exists.mp (hsigns key)
    rw [hscript]
    rfl

/-- The local signing loop succeeds when the spends and the keys are there. -/
theorem completeSigned_isOk (hcomputes : keys.Computes) (htx : Complete tx)
    (hvins : ∀ pdi ∈ pending, pdi.vin < tx.inputs.length) {spends : List (Nat × SignActionSpend)} :
    (keys.completeSignedTransaction identity tx pending spends).isOk = true ↔
      (∀ entry ∈ spends, entry.1 < tx.inputs.length) ∧ ∀ pdi ∈ pending, keys.Unlocks identity pdi := by
  let I : SdkTransaction → Prop := fun tx' => Complete tx' ∧ tx'.inputs.length = tx.inputs.length
  have hinsert : ∀ tx₁, I tx₁ → ∀ entry tx₂, insertSpend tx₁ entry = .ok tx₂ → I tx₂ :=
    fun _ h₁ _ _ h => ⟨(insertSpend_eq h₁.1 h).1, (insertSpend_eq h₁.1 h).2.trans h₁.2⟩
  have hsign : ∀ tx₁, I tx₁ → ∀ pdi tx₂, keys.signPending identity tx₁ pdi = .ok tx₂ → I tx₂ :=
    fun _ h₁ _ _ h => ⟨(signPending_eq h₁.1 h).1, (signPending_eq h₁.1 h).2.trans h₁.2⟩
  have hspends : (spends.foldlM insertSpend tx).isOk = true ↔
      ∀ entry ∈ spends, entry.1 < tx.inputs.length :=
    isOk_foldlM (I := I) hinsert (fun tx₁ h₁ entry _ => by rw [insertSpend_isOk, h₁.2]) ⟨htx, rfl⟩
  have hsigned : ∀ tx₁, I tx₁ → ((pending.foldlM (keys.signPending identity) tx₁).isOk = true ↔
      ∀ pdi ∈ pending, keys.Unlocks identity pdi) := fun tx₁ h₁ =>
    isOk_foldlM (I := I) hsign
      (fun tx₂ h₂ pdi hpdi => signPending_isOk hcomputes h₂.1 (h₂.2 ▸ hvins pdi hpdi)) h₁
  have hrest : ∀ tx₁, I tx₁ → ((pending.foldlM (keys.signPending identity) tx₁ >>= fun tx =>
      reported "Failed to serialize signed tx: " (keys.toBinary tx)).isOk = true ↔
      ∀ pdi ∈ pending, keys.Unlocks identity pdi) := by
    intro tx₁ h₁
    rw [isOk_bind_total fun tx₂ h₂ => ?_, hsigned tx₁ h₁]
    obtain ⟨bytes, hbytes⟩ := isOk_iff_exists.mp (hcomputes.toBinary tx₂ (foldlM_keeps hsign h₁ h₂).1)
    rw [hbytes]
    rfl
  unfold SigningKeys.completeSignedTransaction
  rw [isOk_bind, ← hspends, isOk_iff_exists]
  constructor
  · rintro ⟨tx₁, h₁, hok⟩
    exact ⟨⟨tx₁, h₁⟩, (hrest tx₁ (foldlM_keeps hinsert ⟨htx, rfl⟩ h₁)).mp hok⟩
  · rintro ⟨⟨tx₁, h₁⟩, hall⟩
    exact ⟨tx₁, h₁, (hrest tx₁ (foldlM_keeps hinsert ⟨htx, rfl⟩ h₁)).mpr hall⟩

end Success

/-! ## Agreement -/

section Agreement

variable {spends : List (Nat × SignActionSpend)}

/-- The two builders both fail or build the same, and so do the two signing functions on what is
built. -/
structure SigningAgrees (keys : SigningKeys PubKey Key) (provider : SigningProvider PubKey)
    (identity : PubKey) (builder : TxBuilder) (sdk : Sdk) (dcr : StorageCreateActionResult)
    (args : ValidCreateActionArgs) (spends : List (Nat × SignActionSpend)) : Prop where
  build : (keys.buildSignableTransaction builder sdk identity dcr args).toOption =
    (provider.buildSignableTransaction builder sdk dcr args).toOption
  complete : ∀ tx amount pending,
    keys.buildSignableTransaction builder sdk identity dcr args = .ok (tx, amount, pending) →
    (keys.completeSignedTransaction identity tx pending spends).toOption =
      (provider.completeSignedTransaction keys tx pending spends).toOption

/-- The key for a storage input can be derived. -/
def SigningKeys.InputUnlocks (keys : SigningKeys PubKey Key) (identity : PubKey)
    (si : StorageCreateTransactionSdkInput) : Prop :=
  ∃ unlocker key,
    (match si.senderIdentityKey with
    | some pubKeyHex => keys.publicKey pubKeyHex = .ok unlocker
    | none => unlocker = identity) ∧
    keys.unlock (si.derivationPrefix.getD "") (si.derivationSuffix.getD "") unlocker = .ok key

/-- The scripts that the local functions come to decode are hex: those of the outputs that are not
change, when a transaction is built, and those of the inputs that the wallet signs, when the spends
and the keys for them are there. -/
def ScriptsFit (keys : SigningKeys PubKey Key) (identity : PubKey) (dcr : StorageCreateActionResult)
    (args : ValidCreateActionArgs) (spends : List (Nat × SignActionSpend)) : Prop :=
  BuildsFrom keys identity dcr args →
    (∀ out ∈ dcr.outputs, OutputFits out) ∧
    ((∀ entry ∈ spends, entry.1 < dcr.inputs.length) →
      (∀ si ∈ dcr.inputs, args.inputs.length ≤ si.vin → keys.InputUnlocks identity si) →
      ∀ si ∈ dcr.inputs, args.inputs.length ≤ si.vin → HexText (utf8Chars si.sourceLockingScript))

theorem reported_eq_ok {α : Type} {label : String} {r : Except String α} {a : α} :
    reported label r = .ok a ↔ r = .ok a := by
  cases r <;> simp [reported]

theorem RecordOf.unlocks_iff {si : StorageCreateTransactionSdkInput} {pdi : PendingStorageInput}
    (h : RecordOf si pdi) : keys.Unlocks identity pdi ↔ keys.InputUnlocks identity si := by
  unfold SigningKeys.Unlocks SigningKeys.InputUnlocks SigningKeys.unlockerPubKey
  rw [h.unlockerPubKey, h.derivationPrefix, h.derivationSuffix]
  refine exists_congr fun unlocker => exists_congr fun key => and_congr_left fun _ => ?_
  cases si.senderIdentityKey with
  | some pubKeyHex => exact reported_eq_ok
  | none => exact ⟨fun h => (Except.ok.inj h).symm, fun h => congrArg Except.ok h.symm⟩

/-- What holds of all records holds of all inputs to sign. -/
theorem Built.forall_iff (h : Built dcr args tx pending) {P : PendingStorageInput → Prop}
    {Q : StorageCreateTransactionSdkInput → Prop} (hPQ : ∀ {si pdi}, RecordOf si pdi → (P pdi ↔ Q si)) :
    (∀ pdi ∈ pending, P pdi) ↔ ∀ si ∈ dcr.inputs, args.inputs.length ≤ si.vin → Q si := by
  have hall : (∀ pdi ∈ pending, P pdi) ↔
      ∀ si ∈ toSign (mergedInputs dcr.inputs args.inputs), Q si := by
    have hrecords := h.records
    generalize toSign (mergedInputs dcr.inputs args.inputs) = sis at hrecords
    clear h
    induction hrecords with
    | nil => exact ⟨fun _ => nofun, fun _ => nofun⟩
    | cons hrecord _ ih =>
      rw [List.forall_mem_cons, List.forall_mem_cons]
      exact and_congr (hPQ hrecord) ih
  rw [hall]
  simp only [mem_toSign, and_imp]

/-- A provider for the same keys does what the local functions do exactly when the scripts of
storage's answer are hex, as far as they are decoded. -/
theorem signing_agrees_iff (keys : SigningKeys PubKey Key) (provider : SigningProvider PubKey)
    (identity : PubKey) (builder : TxBuilder) (sdk : Sdk) (hpush : builder.Pushes)
    (haccepts : builder.Accepts) (hcomputes : keys.Computes) (hprovider : provider.Matches keys identity)
    (dcr : StorageCreateActionResult) (args : ValidCreateActionArgs)
    (spends : List (Nat × SignActionSpend)) :
    SigningAgrees keys provider identity builder sdk dcr args spends ↔
      ScriptsFit keys identity dcr args spends := by
  have hbuild : (keys.buildSignableTransaction builder sdk identity dcr args).toOption =
      (provider.buildSignableTransaction builder sdk dcr args).toOption ↔
      (BuildsFrom keys identity dcr args → ∀ out ∈ dcr.outputs, OutputFits out) := by
    rw [(buildSignable_guards hprovider).agree_iff, buildSignable_isOk haccepts]
  have hcomplete : ∀ tx amount pending,
      keys.buildSignableTransaction builder sdk identity dcr args = .ok (tx, amount, pending) →
      ((keys.completeSignedTransaction identity tx pending spends).toOption =
        (provider.completeSignedTransaction keys tx pending spends).toOption ↔
      ((∀ entry ∈ spends, entry.1 < dcr.inputs.length) →
        (∀ si ∈ dcr.inputs, args.inputs.length ≤ si.vin → keys.InputUnlocks identity si) →
        ∀ si ∈ dcr.inputs, args.inputs.length ≤ si.vin → HexText (utf8Chars si.sourceLockingScript))) := by
    intro tx amount pending h
    have hbuilt : Built dcr args tx pending := buildSignable_built hpush h
    rw [(completeSigned_guards hprovider).agree_iff,
      completeSigned_isOk hcomputes hbuilt.complete hbuilt.vins, hbuilt.length, and_imp,
      hbuilt.forall_iff fun hrecord => hrecord.unlocks_iff,
      hbuilt.forall_iff fun hrecord => by rw [hrecord.lockingScript]]
  constructor
  · intro hagrees hbuilds
    obtain ⟨⟨tx, amount, pending⟩, h⟩ := isOk_iff_exists.mp ((buildSignable_isOk haccepts).mpr hbuilds)
    exact ⟨hbuild.mp hagrees.build hbuilds,
      (hcomplete tx amount pending h).mp (hagrees.complete tx amount pending h)⟩
  · intro hfit
    refine ⟨hbuild.mpr fun hbuilds => (hfit hbuilds).1, fun tx amount pending h => ?_⟩
    have hbuilds := (buildSignable_isOk haccepts).mp (isOk_iff_exists.mpr ⟨_, h⟩)
    exact (hcomplete tx amount pending h).mpr (hfit hbuilds).2

theorem appendingBuilder_accepts : appendingBuilder.Accepts :=
  ⟨fun _ _ _ => ⟨_, rfl⟩, fun _ _ _ => ⟨_, rfl⟩⟩

end Agreement

/-- The answer to the payment to Bob with an input for the wallet to sign. -/
def fundedAnswer : StorageCreateActionResult :=
  { payBobAnswer with
    inputs := [
      { vin := 0, sourceTxid := Sample.fundingTxid, sourceVout := 0, sourceSatoshis := 5000
        sourceLockingScript := bytesToHex Sample.aliceScript, sourceTransaction := none
        unlockingScriptLength := 107, providedBy := .storage, outputType := "P2PKH"
        spendingDescription := none, derivationPrefix := some "cA==", derivationSuffix := some "cw=="
        senderIdentityKey := none }] }

/-- The signed payment with its change, on the wire. -/
def payBobRaw : Bytes :=
  [1, 0, 0, 0, 1] ++ Sample.fundingHash ++ [0, 0, 0, 0, 1, 81, 255, 255, 255, 255, 2] ++
    ([150, 15, 0, 0, 0, 0, 0, 0, 25] ++ Sample.changeScript) ++
    ([232, 3, 0, 0, 0, 0, 0, 0, 25] ++ Sample.bobScript) ++ [0, 0, 0, 0]

/-- Keys for the texts of the answer. -/
def payBobKeys : SigningKeys String Unit where
  publicKey text := .ok text
  lock derivationPrefix derivationSuffix _ := changeLockOf derivationPrefix derivationSuffix
  unlock _ _ _ := .ok ()
  sighashPreimage _ _ _ _ _ := .ok []
  sha256d bytes := bytes
  unlockingScript _ _ _ := [81]
  toBinary _ := .ok payBobRaw

def payBobProvider : SigningProvider String where
  identityPublicKey := Sample.alice
  deriveChangeLockingScript := changeLockOf
  signInput _ _ _ _ _ := .ok [81]

theorem payBobKeys_computes : payBobKeys.Computes :=
  ⟨fun _ _ _ _ _ _ _ => rfl, fun _ _ => rfl⟩

theorem payBobProvider_matches : payBobProvider.Matches payBobKeys Sample.alice :=
  ⟨rfl, fun _ _ => rfl, fun _ _ _ _ _ => rfl⟩

/-- One input is signed, and alike. -/
theorem signing_agrees_payBob :
    (payBobKeys.buildSignableTransaction appendingBuilder Sample.sdk Sample.alice fundedAnswer
      payBob).toOption.map (·.2.2.length) = some 1 ∧
    SigningAgrees payBobKeys payBobProvider Sample.alice appendingBuilder Sample.sdk fundedAnswer payBob
      [] := by
  refine ⟨by decide +kernel, (signing_agrees_iff payBobKeys payBobProvider Sample.alice appendingBuilder
    Sample.sdk appendingBuilder_pushes appendingBuilder_accepts payBobKeys_computes
    payBobProvider_matches fundedAnswer payBob []).mpr fun _ => ⟨?_, fun _ _ => ?_⟩⟩
  · unfold OutputFits
    decide +kernel
  · decide +kernel

/-- The answer with a commission whose script is three digits. -/
def oddAnswer : StorageCreateActionResult :=
  { fundedAnswer with
    outputs := fundedAnswer.outputs ++ [
      { vout := 2, satoshis := 100, lockingScript := "006", providedBy := .storage
        purpose := some "storage-commission", basket := none, tags := [], outputDescription := none
        derivationSuffix := none, customInstructions := none }] }

/-- The local builder makes a transaction of it, and the provider's does not. -/
theorem signing_disagrees_odd :
    ¬SigningAgrees payBobKeys payBobProvider Sample.alice appendingBuilder Sample.sdk oddAnswer payBob
      [] := by
  intro h
  have hlocal : (payBobKeys.buildSignableTransaction appendingBuilder Sample.sdk Sample.alice oddAnswer
      payBob).toOption.isSome = true := by decide +kernel
  have hprovider : (payBobProvider.buildSignableTransaction appendingBuilder Sample.sdk oddAnswer
      payBob).toOption.isSome = false := by decide +kernel
  rw [h.build, hprovider] at hlocal
  cases hlocal

end WalletToolbox.Signer
