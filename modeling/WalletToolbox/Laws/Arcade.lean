import WalletToolbox.Sample
import WalletToolbox.Services.Arcade

/-! # Arcade posts parents before children

The loop ends for any requested transactions, and posts each entry of the request that has an
Extended Format encoding once.
When no requested transaction spends itself through others, the post of a transaction starts after
the answers for everything requested that it spends. -/

namespace WalletToolbox.Arcade

open WalletToolbox.Lib
open WalletToolbox.Storage (Bytes)

section Requests

variable (sdk : ArcadeSdk) (parsed : Beef) (txids : List String)

/-- A transaction spends an output of a requested one. -/
def Spends (txid source : String) : Prop :=
  source ∈ txids ∧ ∃ tx, sdk.findAtomicTransaction parsed txid = some tx ∧
    ∃ input ∈ tx.inputs, input.sourceTxid = some source

/-- No requested transaction spends itself, through any number of others. -/
def Acyclic : Prop :=
  ∀ txid, ¬Relation.TransGen (Spends sdk parsed txids) txid txid

/-- Each position with an encoding is posted once, and nothing else is. -/
def PostsOnce (trace : List Event) : Prop :=
  ∀ i, trace.count (.post i) =
    if (txids[i]?.bind fun txid => (prepare sdk parsed txids txid).efHex).isSome then 1 else 0

/-- When a post starts, everything requested that it spends has been answered. -/
def ParentsFirst (trace : List Event) : Prop :=
  ∀ i j txid source, txids[i]? = some txid → txids[j]? = some source →
    Spends sdk parsed txids txid source →
      ∀ before after, trace = before ++ .post i :: after → .answered j ∈ before

/-- The positions that a position waits for. -/
def Waits (i j : Nat) : Prop :=
  ∃ p, (prepareAll sdk parsed txids)[i]? = some p ∧
    ∃ dependency ∈ p.dependencies, indexByTxid (prepareAll sdk parsed txids) dependency = some j

variable {sdk parsed txids}

theorem getElem?_prepareAll (i : Nat) :
    (prepareAll sdk parsed txids)[i]? = txids[i]?.map (prepare sdk parsed txids) :=
  List.getElem?_map

theorem length_prepareAll : (prepareAll sdk parsed txids).length = txids.length :=
  List.length_map _

theorem mem_dependencies {txid source : String} :
    source ∈ (prepare sdk parsed txids txid).dependencies ↔
      source ≠ txid ∧ Spends sdk parsed txids txid source := by
  cases htx : sdk.findAtomicTransaction parsed txid with
  | none => simp [prepare, Spends, htx]
  | some tx =>
    simp only [prepare, Spends, htx, Option.map_some, Option.getD_some, List.mem_filter,
      List.mem_filterMap, decide_eq_true_eq, Option.some.injEq, exists_eq_left']
    exact ⟨fun ⟨h, hne, hmem⟩ => ⟨hne, hmem, h⟩, fun ⟨hne, hmem, h⟩ => ⟨h, hne, hmem⟩⟩

theorem indexByTxid_some {prepared : List Prepared} {txid : String} {j : Nat}
    (h : indexByTxid prepared txid = some j) : ∃ p, prepared[j]? = some p ∧ p.txid = txid := by
  obtain ⟨⟨p, k⟩, hlast, rfl⟩ := Option.map_eq_some_iff.mp h
  obtain ⟨hmem, htxid⟩ := List.mem_filter.mp (List.mem_of_getLast? hlast)
  exact ⟨p, List.mem_zipIdx_iff_getElem?.mp hmem, of_decide_eq_true htxid⟩

theorem exists_indexByTxid {prepared : List Prepared} {p : Prepared} (h : p ∈ prepared) :
    ∃ j, indexByTxid prepared p.txid = some j := by
  obtain ⟨k, hk⟩ := List.getElem?_of_mem h
  have hmem : (p, k) ∈ prepared.zipIdx.filter fun q => q.1.txid = p.txid :=
    List.mem_filter.mpr ⟨List.mem_zipIdx_iff_getElem?.mpr hk, decide_eq_true rfl⟩
  obtain ⟨q, hq⟩ := Option.isSome_iff_exists.mp (List.getLast?_isSome.mpr (List.ne_nil_of_mem hmem))
  exact ⟨q.2, by rw [indexByTxid, hq]; rfl⟩

theorem Waits.spends {i j : Nat} (h : Waits sdk parsed txids i j) :
    Spends sdk parsed txids (txids.getD i "") (txids.getD j "") := by
  obtain ⟨p, hp, dependency, hdependency, hindex⟩ := h
  rw [getElem?_prepareAll, Option.map_eq_some_iff] at hp
  obtain ⟨txid, htxid, rfl⟩ := hp
  obtain ⟨q, hq, rfl⟩ := indexByTxid_some hindex
  rw [getElem?_prepareAll, Option.map_eq_some_iff] at hq
  obtain ⟨source, hsource, rfl⟩ := hq
  rw [List.getD_eq_getElem?_getD, List.getD_eq_getElem?_getD, htxid, hsource]
  exact (mem_dependencies.mp hdependency).2

theorem reads_isReady :
    Waves.Reads (isReady (prepareAll sdk parsed txids)) (Waits sdk parsed txids) := by
  intro pending i
  cases hp : (prepareAll sdk parsed txids)[i]? with
  | none => simp [isReady, Waits, hp]
  | some p =>
    simp only [isReady, Waits, hp, Option.map_some, Option.getD_some, List.all_eq_true,
      Option.some.injEq, exists_eq_left']
    constructor
    · intro h j hj ⟨dependency, hdependency, hindex⟩
      have hready := h dependency hdependency
      rw [hindex] at hready
      simp [hj] at hready
    · intro h dependency hdependency
      cases hindex : indexByTxid (prepareAll sdk parsed txids) dependency with
      | none => rfl
      | some j =>
        have hj : j ∉ pending := fun hj => h j hj ⟨dependency, hdependency, hindex⟩
        simpa using hj

theorem Acyclic.waits (h : Acyclic sdk parsed txids) (i : Nat) :
    ¬Relation.TransGen (Waits sdk parsed txids) i i := by
  intro hcycle
  have hspends : ∀ j, Relation.TransGen (Waits sdk parsed txids) i j →
      Relation.TransGen (Spends sdk parsed txids) (txids.getD i "") (txids.getD j "") := by
    intro j hj
    induction hj with
    | single hwaits => exact .single hwaits.spends
    | tail _ hwaits ih => exact ih.tail hwaits.spends
  exact h _ (hspends i hcycle)

/-! ## The schedule -/

variable {groups : List (List Nat)} {trace : List Event}

theorem schedule_ends : ∃ groups, schedule (prepareAll sdk parsed txids) = some groups := by
  have hlength := Nat.le_of_eq (List.length_range (n := (prepareAll sdk parsed txids).length))
  obtain ⟨ws, hws⟩ := @Waves.waves_end _ (isReady (prepareAll sdk parsed txids)) _ _ _ hlength
  exact ⟨_, by rw [schedule, hws]; rfl⟩

theorem flatten_flatMap_chunks (ws : List (List Nat)) :
    (ws.flatMap (chunks 4)).flatten = ws.flatten := by
  induction ws with
  | nil => rfl
  | cons w ws ih =>
    rw [List.flatMap_cons, List.flatten_append, flatten_chunks (by omega), ih, List.flatten_cons]

/-- Every position is in one group. -/
theorem schedule_perm {prepared : List Prepared} (h : schedule prepared = some groups) :
    groups.flatten.Perm (List.range prepared.length) := by
  obtain ⟨ws, hws, rfl⟩ := Option.map_eq_some_iff.mp h
  rw [flatten_flatMap_chunks]
  exact Waves.waves_perm List.nodup_range hws

theorem events_of_not_lt {prepared : List Prepared} {i : Nat} (h : ¬i < prepared.length) :
    events prepared i = [] := by
  rw [events, List.getElem?_eq_none (Nat.le_of_not_lt h)]

/-- The position of an event is its own. -/
theorem eq_of_mem_events {prepared : List Prepared} {i : Nat} {e : Event}
    (h : e ∈ events prepared i) : e = .post i ∨ e = .answered i := by
  unfold events at h
  split at h
  · split at h
    · simpa using h
    · exact Or.inr (by simpa using h)
  · cases h

theorem answered_mem_events {prepared : List Prepared} {i : Nat} (h : i < prepared.length) :
    .answered i ∈ events prepared i := by
  rw [events, List.getElem?_eq_getElem h]
  dsimp only
  split <;> simp

theorem post_mem_events (txids : List String) (i : Nat) :
    .post i ∈ events (prepareAll sdk parsed txids) i ↔
      (txids[i]?.bind fun txid => (prepare sdk parsed txids txid).efHex).isSome := by
  rw [events, getElem?_prepareAll]
  cases txids[i]? with
  | none => simp
  | some txid => by_cases hef : (prepare sdk parsed txids txid).efHex.isSome <;> simp [hef]

theorem nodup_events (prepared : List Prepared) {positions : List Nat} (h : positions.Nodup) :
    (positions.flatMap (events prepared)).Nodup := by
  refine List.nodup_flatMap.mpr ⟨fun i _ => ?_, h.imp fun hne e he he' => ?_⟩
  · unfold events
    split
    · split <;> simp
    · exact List.nodup_nil
  · obtain rfl | rfl := eq_of_mem_events he <;>
      obtain heq | heq := eq_of_mem_events he' <;> cases heq <;> exact hne rfl

/-- An event of some positions is one of its own position. -/
theorem post_mem_flatMap_events {prepared : List Prepared} {positions : List Nat} {i : Nat} :
    .post i ∈ positions.flatMap (events prepared) ↔
      i ∈ positions ∧ .post i ∈ events prepared i := by
  rw [List.mem_flatMap]
  constructor
  · rintro ⟨j, hj, he⟩
    obtain heq | heq := eq_of_mem_events he
    · cases heq
      exact ⟨hj, he⟩
    · cases heq
  · exact fun ⟨hi, he⟩ => ⟨i, hi, he⟩

theorem postsOnce_of_run (h : schedule (prepareAll sdk parsed txids) = some groups)
    (hrun : Posts (prepareAll sdk parsed txids) groups trace) :
    PostsOnce sdk parsed txids trace := by
  intro i
  have hperm := schedule_perm h
  have hnodup := nodup_events (prepareAll sdk parsed txids) (hperm.nodup_iff.mpr List.nodup_range)
  have hmem : .post i ∈ groups.flatten.flatMap (events (prepareAll sdk parsed txids)) ↔
      (txids[i]?.bind fun txid => (prepare sdk parsed txids txid).efHex).isSome := by
    rw [post_mem_flatMap_events, post_mem_events, hperm.mem_iff, List.mem_range]
    refine and_iff_right_of_imp fun hsome => Decidable.byContradiction fun hge => ?_
    rw [← post_mem_events, events_of_not_lt hge] at hsome
    cases hsome
  rw [hrun.perm.count_eq, hnodup.count]
  exact if_congr hmem rfl rfl

theorem parentsFirst_of_run (hacyclic : Acyclic sdk parsed txids)
    (h : schedule (prepareAll sdk parsed txids) = some groups)
    (hrun : Posts (prepareAll sdk parsed txids) groups trace) :
    ParentsFirst sdk parsed txids trace := by
  intro i j txid source hi hj hspends before after htrace
  obtain ⟨ws, hws, rfl⟩ := Option.map_eq_some_iff.mp h
  have hperm := Waves.waves_perm List.nodup_range hws
  -- the position that the code looks the source up at
  have hprepared : prepare sdk parsed txids source ∈ prepareAll sdk parsed txids :=
    List.mem_map.mpr ⟨source, List.mem_of_getElem? hj, rfl⟩
  obtain ⟨k, hk⟩ := exists_indexByTxid hprepared
  obtain ⟨q, hq, hqtxid⟩ := indexByTxid_some hk
  have hsource : txids[k]? = some source := by
    rw [getElem?_prepareAll, Option.map_eq_some_iff] at hq
    obtain ⟨source', hsource', rfl⟩ := hq
    rw [hsource']
    exact congrArg some hqtxid
  have hne : source ≠ txid := by
    rintro rfl
    exact hacyclic _ (.single hspends)
  have hwaits : Waits sdk parsed txids i k :=
    ⟨_, by rw [getElem?_prepareAll, hi]; rfl, source, mem_dependencies.mpr ⟨hne, hspends⟩, hk⟩
  have hsame : ∀ c, Waits sdk parsed txids j c → Waits sdk parsed txids k c := by
    intro c hc
    rw [Waits, getElem?_prepareAll, hj] at hc
    rwa [Waits, getElem?_prepareAll, hsource]
  have hpending : ∀ {m t}, txids[m]? = some t → m ∈ List.range (prepareAll sdk parsed txids).length := by
    intro m t hm
    rw [List.mem_range, length_prepareAll]
    exact (List.getElem?_eq_some_iff.mp hm).1
  -- the wave that posts the spender
  have hi' := hperm.mem_iff.mpr (hpending hi)
  obtain ⟨w, hw, hiw⟩ := List.mem_flatten.mp hi'
  obtain ⟨pre, post, rfl⟩ := List.append_of_mem hw
  have hk' := Waves.mem_earlier_of_waits reads_isReady hacyclic.waits hws hiw hwaits
    (hpending hsource)
  have hj' := Waves.mem_earlier_of_same reads_isReady hacyclic.waits hws hsame (hpending hsource)
    (hpending hj) hk'
  have hlater : i ∉ pre.flatten := by
    have hnodup := hperm.nodup_iff.mpr List.nodup_range
    rw [List.flatten_append, List.flatten_cons] at hnodup
    exact fun hearlier => (List.disjoint_of_nodup_append hnodup) hearlier
      (List.mem_append_left _ hiw)
  rw [htrace, List.flatMap_append] at hrun
  refine hrun.mem_before ?_ ?_
  · rw [flatten_flatMap_chunks, post_mem_flatMap_events]
    exact fun hmem => hlater hmem.1
  · rw [flatten_flatMap_chunks]
    exact List.mem_flatMap.mpr ⟨j, hj', answered_mem_events (List.mem_range.mp (hpending hj))⟩

/-! ## The report -/

theorem length_fileResults (prepared : List Prepared) (answers : Nat → HttpAnswer ArcadeResponse)
    (positions : List Nat) (results : List (Option PostTxResultForTxid)) :
    (positions.foldl (fileResult prepared answers) results).length = results.length := by
  induction positions generalizing results with
  | nil => rfl
  | cons i positions ih =>
    rw [List.foldl_cons, ih, fileResult]
    split
    · exact List.length_set
    · rfl

/-- A filed position has its result, whatever the order of the positions. -/
theorem getElem?_fileResults {prepared : List Prepared} {answers : Nat → HttpAnswer ArcadeResponse}
    {positions : List Nat} {results : List (Option PostTxResultForTxid)} {i : Nat} {p : Prepared}
    (hp : prepared[i]? = some p) (hi : i < results.length)
    (h : i ∈ positions ∨ results[i]? = some (some (txResult answers i p))) :
    (positions.foldl (fileResult prepared answers) results)[i]? =
      some (some (txResult answers i p)) := by
  induction positions generalizing results with
  | nil => exact h.resolve_left List.not_mem_nil
  | cons j positions ih =>
    rw [List.foldl_cons]
    have hlength : i < (fileResult prepared answers results j).length := by
      rwa [show (fileResult prepared answers results j).length = results.length from
        length_fileResults prepared answers [j] results]
    refine ih hlength ?_
    by_cases hij : j = i
    · subst hij
      right
      rw [fileResult, hp]
      exact List.getElem?_set_self hi
    · refine h.imp (fun hmem => (List.mem_cons.mp hmem).resolve_left (Ne.symm hij)) fun hdone => ?_
      rw [fileResult]
      split
      · rw [List.getElem?_set_ne hij, hdone]
      · exact hdone

theorem collectResults_eq {answers : Nat → HttpAnswer ArcadeResponse}
    (h : schedule (prepareAll sdk parsed txids) = some groups) :
    collectResults (prepareAll sdk parsed txids) answers txids groups =
      txids.zipIdx.map fun (txid, i) => txResult answers i (prepare sdk parsed txids txid) := by
  have hperm := schedule_perm h
  have hlength := length_fileResults (prepareAll sdk parsed txids) answers groups.flatten
    (List.replicate (prepareAll sdk parsed txids).length none)
  rw [List.length_replicate, length_prepareAll] at hlength
  refine List.ext_getElem? fun i => ?_
  rw [collectResults, List.getElem?_map, List.getElem?_map, List.getElem?_zipIdx,
    List.getElem?_zipIdx, Nat.zero_add]
  cases hi : txids[i]? with
  | none =>
    have hge := List.getElem?_eq_none_iff.mp hi
    rw [length_prepareAll, List.getElem?_eq_none (by rwa [hlength])]
    rfl
  | some txid =>
    have hlt := (List.getElem?_eq_some_iff.mp hi).1
    have hprepared : (prepareAll sdk parsed txids)[i]? = some (prepare sdk parsed txids txid) := by
      rw [getElem?_prepareAll, hi]
      rfl
    have hmem : i ∈ groups.flatten := by
      rwa [hperm.mem_iff, List.mem_range, length_prepareAll]
    rw [getElem?_fileResults hprepared
      (by rwa [List.length_replicate, length_prepareAll]) (Or.inl hmem)]
    rfl

@[simp] theorem report_txidResults (parsed : Beef) (results : List PostTxResultForTxid) :
    (report parsed results).txidResults = results := by
  unfold report
  split <;> rfl

/-- The loop ends; in every run each entry with an Extended Format encoding is posted once, and
without a cycle after the answers for all that it spends; and the results are in the order of the
request. -/
theorem postBeef_parentsFirst (sdk : ArcadeSdk) (answers : Nat → HttpAnswer ArcadeResponse)
    (beef : Bytes) (parsed : Beef) (hparsed : sdk.parseBeef beef = .ok parsed)
    (txids : List String) :
    ∃ groups, schedule (prepareAll sdk parsed txids) = some groups ∧
      (∀ trace, Posts (prepareAll sdk parsed txids) groups trace →
        PostsOnce sdk parsed txids trace ∧
          (Acyclic sdk parsed txids → ParentsFirst sdk parsed txids trace)) ∧
      ∃ result, postBeef sdk answers beef txids = some result ∧
        result.txidResults =
          txids.zipIdx.map fun (txid, i) => txResult answers i (prepare sdk parsed txids txid) := by
  obtain ⟨groups, hgroups⟩ := @schedule_ends sdk parsed txids
  refine ⟨groups, hgroups, fun trace hrun => ?_, ?_⟩
  · exact ⟨postsOnce_of_run hgroups hrun,
      fun hacyclic => parentsFirst_of_run hacyclic hgroups hrun⟩
  · refine ⟨report parsed (collectResults (prepareAll sdk parsed txids) answers txids groups), ?_, ?_⟩
    · rw [postBeef, hparsed]
      dsimp only
      rw [hgroups]
      rfl
    · rw [report_txidResults, collectResults_eq hgroups]

end Requests

/-- A BEEF whose child spends its parent, and both have an encoding. -/
def familySdk : ArcadeSdk :=
  { Sample.sdk with
    parseBeef := fun _ => .ok Beef.empty
    findAtomicTransaction := fun _ txid =>
      some { version := 1, outputs := [], lockTime := 0
             inputs := if txid = "child" then [{ sourceTxid := some "parent", sourceOutputIndex := 0 }]
               else [] }
    toHexEf := fun _ => .ok "ef" }

theorem family_acyclic : Acyclic familySdk Beef.empty ["child", "parent"] := by
  have hspends : ∀ {txid source}, Spends familySdk Beef.empty ["child", "parent"] txid source →
      txid = "child" ∧ source = "parent" := by
    rintro txid source ⟨-, tx, htx, input, hinput, hsource⟩
    cases htx
    split at hinput
    · rw [List.mem_singleton.mp hinput] at hsource
      exact ⟨‹_›, (Option.some.inj hsource).symm⟩
    · cases hinput
  have hleads : ∀ {txid source}, Relation.TransGen (Spends familySdk Beef.empty ["child", "parent"])
      txid source → txid = "child" ∧ source = "parent" := by
    intro txid source h
    induction h with
    | single hstep => exact hspends hstep
    | tail _ hstep ih => exact ⟨ih.1, (hspends hstep).2⟩
  intro txid hcycle
  obtain ⟨hchild, hparent⟩ := hleads hcycle
  exact absurd (hchild.symm.trans hparent) (by decide)

/-- The child is requested first and posted last. -/
theorem postBeef_parentsFirst_family :
    schedule (prepareAll familySdk Beef.empty ["child", "parent"]) = some [[1], [0]] ∧
      ∀ trace, Posts (prepareAll familySdk Beef.empty ["child", "parent"]) [[1], [0]] trace →
        ParentsFirst familySdk Beef.empty ["child", "parent"] trace := by
  have hschedule : schedule (prepareAll familySdk Beef.empty ["child", "parent"]) =
      some [[1], [0]] := by
    decide +kernel
  refine ⟨hschedule, fun trace hrun => ?_⟩
  obtain ⟨groups, hgroups, hruns, -⟩ := postBeef_parentsFirst familySdk (fun _ => .error "refused") []
    Beef.empty rfl ["child", "parent"]
  rw [hschedule] at hgroups
  cases hgroups
  exact (hruns trace hrun).2 family_acyclic

/-- The posts of a transaction. -/
def postsOf (txids : List String) (txid : String) (trace : List Event) : Nat :=
  trace.countP fun
    | .post i => txids[i]? = some txid
    | .answered _ => false

/-- A transaction that is requested twice is posted twice. -/
theorem repeated_posts_twice :
    ¬∀ (sdk : ArcadeSdk) (parsed : Beef) (txids : List String) (groups : List (List Nat))
      (trace : List Event), schedule (prepareAll sdk parsed txids) = some groups →
        Posts (prepareAll sdk parsed txids) groups trace →
          ∀ txid ∈ txids, (prepare sdk parsed txids txid).efHex.isSome →
            postsOf txids txid trace = 1 := by
  intro h
  have hrun : Posts (prepareAll familySdk Beef.empty ["parent", "parent"]) [[0, 1]]
      ([.post 0, .answered 0, .post 1, .answered 1] ++ []) := by
    refine .group ⟨?_, ?_⟩ .done
    · decide +kernel
    · decide +kernel
  have hone := h familySdk Beef.empty ["parent", "parent"] [[0, 1]] _ (by decide +kernel) hrun "parent"
    List.mem_cons_self (by decide +kernel)
  exact absurd hone (by decide +kernel)

end WalletToolbox.Arcade
