import Mathlib.Data.List.TakeWhile
import WalletToolbox.Laws.Canonical
import WalletToolbox.Portable.Validate

/-! # What a validated document is

A document is accepted exactly when its columns have their shapes and its rows form a closed graph:
keys name one row each, every foreign key names a row of the document, and every row of a user is
the exported user's.
Two documents that are the same up to the order of keys are accepted together. -/

namespace WalletToolbox.Portable

open WalletToolbox.Lib

/-! ## Checks in sequence -/

section Checks

variable {α : Type} {check : α → Except WalletError Unit} {P : α → Prop}

theorem forM_ok_iff {xs : List α} (h : ∀ x ∈ xs, (check x = .ok () ↔ P x)) :
    xs.forM check = .ok () ↔ ∀ x ∈ xs, P x := by
  induction xs with
  | nil => exact ⟨fun _ => nofun, fun _ => rfl⟩
  | cons x xs ih =>
    rw [List.forM, bind_ok_iff, List.forall_mem_cons, ← h x List.mem_cons_self,
      ← ih fun y hy => h y (List.mem_cons_of_mem _ hy)]
    exact ⟨fun ⟨_, hx, hxs⟩ => ⟨hx, hxs⟩, fun ⟨hx, hxs⟩ => ⟨(), hx, hxs⟩⟩

theorem zipIdx_forM_ok_iff {check : α × Nat → Except WalletError Unit} {xs : List α}
    (h : ∀ x i, check (x, i) = .ok () ↔ P x) : xs.zipIdx.forM check = .ok () ↔ ∀ x ∈ xs, P x := by
  rw [forM_ok_iff (P := fun x => P x.1) fun x _ => h x.1 x.2]
  constructor
  · intro hall x hx
    obtain ⟨i, hi⟩ := List.mem_iff_getElem?.mp hx
    exact hall (x, i) (List.mem_zipIdx_iff_getElem?.mpr hi)
  · exact fun hall x hx => hall x.1 (List.fst_mem_of_mem_zipIdx hx)

theorem seq_ok_iff {p q : Except WalletError Unit} :
    (p >>= fun _ => q) = .ok () ↔ p = .ok () ∧ q = .ok () := by
  rw [bind_ok_iff]
  exact ⟨fun ⟨_, hp, hq⟩ => ⟨hp, hq⟩, fun ⟨hp, hq⟩ => ⟨(), hp, hq⟩⟩

theorem guard_ok_iff {c : Prop} [Decidable c] {e : WalletError} :
    (if c then .ok () else .error e : Except WalletError Unit) = .ok () ↔ c := by
  split <;> simp_all

end Checks

/-! ## Columns -/

/-- A UTC time to the millisecond that the calendar prints as the same text. -/
def IsoDate (chrono : Chrono) (value : Value) : Prop :=
  ∃ s printed, asStr value = some s ∧ isoShapeOk s = true ∧
    chrono.reprint (String.ofList s.toList.dropLast) = some printed ∧ printed ++ "Z" = s

theorem assertIsoDate_ok {chrono : Chrono} {value : Value} {path : String} :
    assertIsoDate chrono value path = .ok () ↔ IsoDate chrono value := by
  unfold assertIsoDate
  cases hstr : asStr value with
  | none =>
    refine iff_of_false nofun ?_
    rintro ⟨s, _, hs, -⟩
    cases hstr.symm.trans hs
  | some s =>
    have hiff : IsoDate chrono value ↔ isoShapeOk s = true ∧ ∃ printed,
        chrono.reprint (String.ofList s.toList.dropLast) = some printed ∧ printed ++ "Z" = s := by
      constructor
      · rintro ⟨_, printed, hs, hshape, hprint, heq⟩
        cases hstr.symm.trans hs
        exact ⟨hshape, printed, hprint, heq⟩
      · rintro ⟨hshape, printed, hprint, heq⟩
        exact ⟨s, printed, hstr, hshape, hprint, heq⟩
    rw [hiff]
    dsimp only
    cases isoShapeOk s with
    | false => exact iff_of_false nofun nofun
    | true =>
      cases chrono.reprint (String.ofList s.toList.dropLast) with
      | none => exact iff_of_false nofun (by rintro ⟨-, _, h, -⟩; cases h)
      | some printed =>
        by_cases heq : printed ++ "Z" = s
        · simp [heq, pure, Except.pure]
        · simp [heq, throw, throwThe, MonadExceptOf.throw]

/-- A character of the standard alphabet. -/
def Base64Char (c : UInt8) : Prop :=
  (c.toNat < 128 ∧ (Char.ofNat c.toNat).isAlphanum = true) ∨ c = '+'.toUInt8 ∨ c = '/'.toUInt8

/-- Base64 text with its padding: whole groups of four, of which at most two signs are `=`. -/
def Base64 (value : Value) : Prop :=
  ∃ s body pad, asStr value = some s ∧ s.toUTF8.toList = body ++ List.replicate pad '='.toUInt8 ∧
    pad ≤ 2 ∧ 4 ∣ s.toUTF8.toList.length ∧ ∀ c ∈ body, Base64Char c

theorem base64Char_iff {c : UInt8} : Base64Char c ↔
    (c.toNat < 128 && (Char.ofNat c.toNat).isAlphanum || c == '+'.toUInt8 || c == '/'.toUInt8) = true := by
  rw [Base64Char, Bool.or_eq_true, Bool.or_eq_true, Bool.and_eq_true, decide_eq_true_iff, beq_iff_eq,
    beq_iff_eq, or_assoc]

theorem Base64Char.ne_pad {c : UInt8} (h : Base64Char c) : c ≠ '='.toUInt8 := by
  rintro rfl
  rw [base64Char_iff] at h
  revert h
  decide

/-- What is left when the padding is taken off, and how much was taken. -/
theorem trimPad (b : List UInt8) :
    b = (b.reverse.dropWhile (· == '='.toUInt8)).reverse ++
      List.replicate (b.length - (b.reverse.dropWhile (· == '='.toUInt8)).reverse.length)
        '='.toUInt8 := by
  have hsplit : b = (b.reverse.dropWhile (· == '='.toUInt8)).reverse ++
      (b.reverse.takeWhile (· == '='.toUInt8)).reverse := by
    rw [← List.reverse_append, List.takeWhile_append_dropWhile, List.reverse_reverse]
  have hpad : ∀ c ∈ (b.reverse.takeWhile (· == '='.toUInt8)).reverse, c = '='.toUInt8 := by
    intro c hc
    have hsign := List.mem_takeWhile_imp (List.mem_reverse.mp hc)
    exact beq_iff_eq.mp hsign
  have hlength := congrArg List.length hsplit
  rw [List.length_append] at hlength
  rw [List.eq_replicate_of_mem hpad] at hsplit
  rwa [show b.length - (b.reverse.dropWhile (· == '='.toUInt8)).reverse.length =
    (b.reverse.takeWhile (· == '='.toUInt8)).reverse.length by omega]

theorem trim_pad {body : List UInt8} {pad : Nat} (h : ∀ c ∈ body, Base64Char c) :
    ((body ++ List.replicate pad '='.toUInt8).reverse.dropWhile (· == '='.toUInt8)).reverse = body := by
  rw [List.reverse_append, List.reverse_replicate, List.dropWhile_append_of_pos (by simp)]
  cases hbody : body.reverse with
  | nil => rw [List.reverse_eq_nil_iff.mp hbody]; rfl
  | cons c rest =>
    have hc := (h c (List.mem_reverse.mp (hbody ▸ List.mem_cons_self))).ne_pad
    rw [List.dropWhile_cons_of_neg (by simpa using hc), ← hbody, List.reverse_reverse]

theorem assertBase64_ok {value : Value} {path : String} :
    assertBase64 value path = .ok () ↔ Base64 value := by
  unfold assertBase64
  cases hstr : asStr value with
  | none =>
    refine iff_of_false nofun ?_
    rintro ⟨s, _, _, hs, -⟩
    cases hstr.symm.trans hs
  | some s =>
    have hiff : Base64 value ↔ s.toUTF8.toList.length % 4 = 0 ∧
        s.toUTF8.toList.length -
          (s.toUTF8.toList.reverse.dropWhile (· == '='.toUInt8)).reverse.length ≤ 2 ∧
        ∀ c ∈ (s.toUTF8.toList.reverse.dropWhile (· == '='.toUInt8)).reverse, Base64Char c := by
      constructor
      · rintro ⟨_, body, pad, hs, hbytes, hpad, hgroups, hbody⟩
        cases hstr.symm.trans hs
        have htrim : (s.toUTF8.toList.reverse.dropWhile (· == '='.toUInt8)).reverse = body := by
          rw [hbytes, trim_pad hbody]
        rw [htrim]
        refine ⟨Nat.mod_eq_zero_of_dvd hgroups, ?_, hbody⟩
        rw [hbytes, List.length_append, List.length_replicate]
        omega
      · rintro ⟨hgroups, hpad, hbody⟩
        exact ⟨s, _, _, hstr, trimPad _, hpad, Nat.dvd_of_mod_eq_zero hgroups, hbody⟩
    rw [hiff]
    simp only [base64Char_iff, ← List.all_eq_true]
    generalize (s.toUTF8.toList.reverse.dropWhile (· == '='.toUInt8)).reverse = trimmed
    generalize s.toUTF8.toList = b
    split
    · rename_i hgroups
      exact iff_of_false nofun fun h => bne_iff_ne.mp hgroups h.1
    · rename_i hgroups
      rw [bne_iff_ne, not_not] at hgroups
      split
      · rename_i hpad
        exact iff_of_false nofun fun h => absurd h.2.1 (not_le.mpr hpad)
      · rename_i hpad
        split
        · rename_i hbad
          exact iff_of_false nofun fun h => by rw [h.2.2] at hbad; cases hbad
        · rename_i hall
          rw [Bool.not_eq_true, Bool.not_eq_false'] at hall
          exact iff_of_true rfl ⟨hgroups, not_lt.mp hpad, hall⟩

/-- The columns of a row that are there have their shapes. -/
structure Columns (chrono : Chrono) (kind : String) (row : Row) : Prop where
  dates : ∀ field ∈ dateFields kind, ∀ value, get row field = some value → IsoDate chrono value
  bytes : ∀ field ∈ binaryFields kind, ∀ value, get row field = some value → Base64 value
  objects : ∀ field ∈ jsonFields kind, ∀ value, get row field = some value → isObject value = true

theorem checkFields_ok {row : Row} {rowPath : String} {fields : List String}
    {check : Value → String → Except WalletError Unit} {P : Value → Prop}
    (h : ∀ value path, check value path = .ok () ↔ P value) :
    checkFields row rowPath fields check = .ok () ↔
      ∀ field ∈ fields, ∀ value, get row field = some value → P value := by
  refine forM_ok_iff fun field _ => ?_
  cases hvalue : get row field with
  | none => exact iff_of_true rfl nofun
  | some value =>
    dsimp only
    rw [h]
    exact ⟨fun hP _ heq => Option.some.inj heq ▸ hP, fun hall => hall value rfl⟩

theorem validatePortableRows_ok {chrono : Chrono} {kind path : String} {rows : List Row} :
    validatePortableRows chrono kind rows path = .ok () ↔ ∀ row ∈ rows, Columns chrono kind row := by
  refine zipIdx_forM_ok_iff fun row i => ?_
  rw [seq_ok_iff, seq_ok_iff, checkFields_ok fun v p => @assertIsoDate_ok chrono v p,
    checkFields_ok fun v p => @assertBase64_ok v p,
    checkFields_ok (P := fun v => isObject v = true) fun _ _ => guard_ok_iff]
  exact ⟨fun ⟨hdates, hbytes, hobjects⟩ => ⟨hdates, hbytes, hobjects⟩,
    fun h => ⟨h.dates, h.bytes, h.objects⟩⟩

/-- There is no null in the value. -/
def NoNulls (v : Value) : Prop := v.All False (fun _ => True) fun _ => True

theorem rejectNulls_ok {v : Value} {path : String} : rejectNulls path v = .ok () ↔ NoNulls v := by
  induction v using Json.byParts generalizing path with
  | null => exact iff_of_false nofun fun h => h
  | bool b => exact iff_of_true rfl trivial
  | number n => exact iff_of_true rfl trivial
  | string s => exact iff_of_true rfl trivial
  | array items ih =>
    have hitems : ∀ i, rejectNullItems path i items = .ok () ↔ ∀ v ∈ items, NoNulls v := by
      induction items with
      | nil => exact fun _ => iff_of_true rfl nofun
      | cons v rest ihrest =>
        intro i
        rw [rejectNullItems, seq_ok_iff, List.forall_mem_cons, ih v List.mem_cons_self,
          ihrest fun w hw => ih w (List.mem_cons_of_mem _ hw)]
    rw [rejectNulls, hitems, NoNulls, Json.all_array]
    rfl
  | object fields ih =>
    have hfields : rejectNullFields path fields = .ok () ↔ ∀ f ∈ fields, NoNulls f.2 := by
      induction fields with
      | nil => exact iff_of_true rfl nofun
      | cons f rest ihrest =>
        rw [rejectNullFields, seq_ok_iff, List.forall_mem_cons, ih f List.mem_cons_self,
          ihrest fun g hg => ih g (List.mem_cons_of_mem _ hg)]
    rw [rejectNulls, hfields, NoNulls, Json.all_object, true_and]
    rfl

/-! ## Relations -/

/-- The integer in a column of a row. -/
def keyOf (field : String) (row : Row) : Option Int := jsInt (get row field)

theorem ids_ok {rows : List Row} {field label : String} {set : List Int} :
    ids rows field label = .ok set ↔
      ∃ keys : List Int, rows.map (keyOf field) = keys.map some ∧ keys.Nodup ∧ set = keys.reverse := by
  -- With the keys already seen as an accumulator.
  have hloop : ∀ seen : List Int, rows.foldlM (fun set row => do
      let id ← requireNumber (get row field) s!"{label}.{field}"
      if set.contains id then throw (bad s!"BRC-38 duplicate {label}.{field}: {id}")
      return id :: set) seen = .ok set ↔ ∃ keys : List Int, rows.map (keyOf field) = keys.map some ∧
        keys.Nodup ∧ (∀ k ∈ keys, k ∉ seen) ∧ set = keys.reverse ++ seen := by
    induction rows with
    | nil =>
      intro seen
      constructor
      · intro h
        cases h
        exact ⟨[], rfl, .nil, nofun, rfl⟩
      · rintro ⟨keys, hkeys, -, -, rfl⟩
        obtain rfl := List.map_eq_nil_iff.mp hkeys.symm
        rfl
    | cons row rows ih =>
      intro seen
      rw [List.foldlM_cons, bind_ok_iff, List.map_cons]
      cases hkey : keyOf field row with
      | none =>
        refine iff_of_false ?_ ?_
        · rintro ⟨_, h, -⟩
          rw [requireNumber, show jsInt (get row field) = none from hkey] at h
          cases h
        · rintro ⟨_ | ⟨k, keys⟩, hkeys, -⟩
          · cases hkeys
          · cases (List.cons.inj hkeys).1
      | some id =>
        rw [requireNumber, show jsInt (get row field) = some id from hkey]
        have hadd : ∀ seen', (do
            let id ← (.ok id : Except WalletError Int)
            if seen.contains id then throw (bad s!"BRC-38 duplicate {label}.{field}: {id}")
            return id :: seen) = .ok seen' ↔ id ∉ seen ∧ seen' = id :: seen := by
          intro seen'
          by_cases hseen : id ∈ seen
          · refine iff_of_false ?_ fun h => h.1 hseen
            simp [hseen, bind, Except.bind, throw, throwThe, MonadExceptOf.throw]
          · simp [hseen, bind, Except.bind, pure, Except.pure, eq_comm]
        constructor
        · rintro ⟨seen', hstep, hrest⟩
          obtain ⟨hnew, rfl⟩ := (hadd seen').mp hstep
          obtain ⟨keys, hkeys, hnodup, hfresh, rfl⟩ := (ih (id :: seen)).mp hrest
          refine ⟨id :: keys, by rw [hkeys, List.map_cons], List.nodup_cons.mpr ⟨?_, hnodup⟩, ?_, ?_⟩
          · exact fun hmem => hfresh id hmem List.mem_cons_self
          · rintro k (_ | ⟨_, hk⟩)
            · exact hnew
            · exact fun h => hfresh k hk (List.mem_cons_of_mem _ h)
          · rw [List.reverse_cons, List.append_assoc, List.singleton_append]
        · rintro ⟨_ | ⟨k, keys⟩, hkeys, hnodup, hfresh, rfl⟩
          · cases hkeys
          obtain ⟨hk, hrest⟩ := List.cons.inj hkeys
          obtain rfl := Option.some.inj hk
          obtain ⟨hk, hnodup⟩ := List.nodup_cons.mp hnodup
          refine ⟨id :: seen, (hadd _).mpr ⟨hfresh id List.mem_cons_self, rfl⟩,
            (ih (id :: seen)).mpr ⟨keys, hrest, hnodup, ?_, ?_⟩⟩
          · intro k' hk' hmem
            rcases List.mem_cons.mp hmem with rfl | hmem
            · exact hk hk'
            · exact hfresh k' (List.mem_cons_of_mem _ hk') hmem
          · rw [List.reverse_cons, List.append_assoc, List.singleton_append]
  rw [ids, hloop]
  simp

/-- A column whose integers are keys of another table; an optional one may be absent. -/
structure Reference where
  table : String
  field : String
  target : String
  key : String
  optional : Bool

/-- The foreign keys of a document. -/
def references : List Reference :=
  [⟨"transactions", "provenTxId", "provenTxs", "provenTxId", true⟩,
    ⟨"outputs", "transactionId", "transactions", "transactionId", false⟩,
    ⟨"outputs", "basketId", "outputBaskets", "basketId", true⟩,
    ⟨"outputs", "spentBy", "transactions", "transactionId", true⟩,
    ⟨"commissions", "transactionId", "transactions", "transactionId", false⟩,
    ⟨"txLabelMaps", "transactionId", "transactions", "transactionId", false⟩,
    ⟨"txLabelMaps", "txLabelId", "txLabels", "txLabelId", false⟩,
    ⟨"outputTagMaps", "outputId", "outputs", "outputId", false⟩,
    ⟨"outputTagMaps", "outputTagId", "outputTags", "outputTagId", false⟩,
    ⟨"certificateFields", "certificateId", "certificates", "certificateId", false⟩,
    ⟨"provenTxReqs", "provenTxId", "provenTxs", "provenTxId", true⟩]

/-- The tables with the column that is their key. -/
def primaryKeys : List (String × String) :=
  [("transactions", "transactionId"), ("provenTxs", "provenTxId"), ("outputBaskets", "basketId"),
    ("outputs", "outputId"), ("outputTags", "outputTagId"), ("txLabels", "txLabelId"),
    ("certificates", "certificateId")]

/-- The tables whose rows belong to a user. -/
def ownedTables : List String :=
  ["transactions", "outputBaskets", "outputTags", "txLabels", "certificates", "syncStates", "outputs",
    "commissions", "certificateFields"]

/-- The id is the key of a row of the table. -/
def Names (rows : List Row) (key : String) (id : Int) : Prop := ∃ row ∈ rows, keyOf key row = some id

/-- The row names a row of the target, unless it may and does name none. -/
def Refers (table : Tables) (r : Reference) (row : Row) : Prop :=
  (r.optional = true ∧ present row r.field = none) ∨
    ∃ id, Names (table r.target) r.key id ∧ keyOf r.field row = some id

/-- The closed graph of one user's rows. -/
structure Related (user : Row) (table : Tables) : Prop where
  keys : ∀ k ∈ primaryKeys, ∃ ids : List Int, (table k.1).map (keyOf k.2) = ids.map some ∧ ids.Nodup
  refers : ∀ r ∈ references, ∀ row ∈ table r.table, Refers table r row
  owned : ∃ userId, keyOf "userId" user = some userId ∧
    ∀ name ∈ ownedTables, ∀ row ∈ table name, keyOf "userId" row = some userId
  requested : ∀ row ∈ table "provenTxReqs", ∃ txid, (get row "txid").bind asStr = some txid ∧
    ∃ t ∈ table "transactions", (get t "txid").bind asStr = some txid

theorem requireNumber_ok {value : Option Value} {path : String} {i : Int} :
    requireNumber value path = .ok i ↔ jsInt value = some i := by
  unfold requireNumber
  cases jsInt value <;> simp

theorem requireString_ok {value : Option Value} {path s : String} :
    requireString value path = .ok s ↔ value.bind asStr = some s := by
  unfold requireString
  cases value.bind asStr <;> simp

theorem requireUserId_ok {userId : Int} {label : String} {row : Row} :
    requireUserId userId label row = .ok () ↔ keyOf "userId" row = some userId := by
  simp only [requireUserId, bind_ok_iff, requireNumber_ok, keyOf]
  constructor
  · rintro ⟨id, hid, h⟩
    by_cases heq : id = userId
    · rw [← heq, hid]
    · simp [heq, throw, throwThe, MonadExceptOf.throw] at h
  · exact fun h => ⟨userId, h, by simp [pure, Except.pure]⟩

theorem requireRef_ok {set : List Int} {value : Option Value} {path message : String} :
    requireRef set value path message = .ok () ↔ ∃ id ∈ set, jsInt value = some id := by
  simp only [requireRef, bind_ok_iff, requireNumber_ok]
  refine exists_congr fun id => ?_
  rw [and_comm]
  refine and_congr_left fun _ => ?_
  by_cases hset : id ∈ set <;>
    simp [hset, throw, throwThe, MonadExceptOf.throw, pure, Except.pure]

theorem requireKey_ok {set : List Int} {entity field target : String} {row : Row} :
    requireKey set entity field target row = .ok () ↔ ∃ id ∈ set, keyOf field row = some id :=
  requireRef_ok

theorem present_eq_some {row : Row} {field : String} {v : Value} (h : present row field = some v) :
    get row field = some v := by
  unfold present at h
  split at h
  · cases h
  · cases h
  · rename_i heq
    rw [heq, h]

theorem requirePresent_ok {set : List Int} {entity field target : String} {row : Row} :
    requirePresent set entity field target row = .ok () ↔
      present row field = none ∨ ∃ id ∈ set, keyOf field row = some id := by
  unfold requirePresent
  cases hv : present row field with
  | none => exact iff_of_true rfl (.inl rfl)
  | some v =>
    dsimp only
    rw [requireRef_ok, keyOf, present_eq_some hv]
    simp

theorem forM_ok {α : Type} {check : α → Except WalletError Unit} {xs : List α} :
    xs.forM check = .ok () ↔ ∀ x ∈ xs, check x = .ok () :=
  forM_ok_iff fun _ _ => Iff.rfl

theorem refuse_ok_iff {c : Prop} [Decidable c] {e : WalletError} {q : Except WalletError Unit} :
    (if c then (do throw e; q) else q) = .ok () ↔ ¬c ∧ q = .ok () := by
  split
  · rename_i hc
    exact iff_of_false nofun fun h => h.1 hc
  · rename_i hc
    exact (and_iff_right hc).symm

theorem mem_ids {rows : List Row} {key label : String} {set : List Int} {id : Int}
    (h : ids rows key label = .ok set) : id ∈ set ↔ Names rows key id := by
  obtain ⟨keys, hkeys, -, rfl⟩ := ids_ok.mp h
  rw [List.mem_reverse, ← List.mem_map_of_injective (Option.some_injective Int), ← hkeys, List.mem_map]
  rfl

theorem refers_optional {table : Tables} {source field target key : String} {row : Row} :
    Refers table ⟨source, field, target, key, true⟩ row ↔
      present row field = none ∨ ∃ id, Names (table target) key id ∧ keyOf field row = some id := by
  simp [Refers]

theorem refers_required {table : Tables} {source field target key : String} {row : Row} :
    Refers table ⟨source, field, target, key, false⟩ row ↔
      ∃ id, Names (table target) key id ∧ keyOf field row = some id := by
  simp [Refers]

theorem validateRelationships_ok {user : Row} {table : Tables} :
    validateRelationships user table = .ok () ↔ Related user table := by
  have hkeyed : ∀ {name key : String} {set : List Int}, ids (table name) key name = .ok set →
      ∃ ids : List Int, (table name).map (keyOf key) = ids.map some ∧ ids.Nodup := by
    intro name key set h
    obtain ⟨keys, hkeys, hnodup, -⟩ := ids_ok.mp h
    exact ⟨keys, hkeys, hnodup⟩
  have hset : ∀ {name key : String}, (∃ ids : List Int, (table name).map (keyOf key) = ids.map some ∧
      ids.Nodup) → ∃ set, ids (table name) key name = .ok set := by
    rintro name key ⟨keys, hkeys, hnodup⟩
    exact ⟨keys.reverse, ids_ok.mpr ⟨keys, hkeys, hnodup, rfl⟩⟩
  unfold validateRelationships
  simp only [bind_ok_iff, requireNumber_ok, requireUserId_ok, requireKey_ok,
    requirePresent_ok, requireString_ok, forM_ok, refuse_ok_iff, Unique.exists_iff,
    PUnit.default_eq_unit]
  constructor
  · rintro ⟨userId, huser, txIds, htx, provenTxIds, hproven, basketIds, hbasket, outputIds, houtput,
      tagIds, htag, labelIds, hlabel, certificateIds, hcertificate, htail⟩
    simp only [mem_ids htx, mem_ids hproven, mem_ids hbasket, mem_ids houtput, mem_ids htag,
      mem_ids hlabel, mem_ids hcertificate] at htail
    obtain ⟨htxs, hnames, houtputs, hcommissions, hlabels, htags, hfields, hreqs⟩ := htail
    constructor
    · simp only [primaryKeys, List.forall_mem_cons]
      exact ⟨hkeyed htx, hkeyed hproven, hkeyed hbasket, hkeyed houtput, hkeyed htag, hkeyed hlabel,
        hkeyed hcertificate, nofun⟩
    · simp only [references, List.forall_mem_cons, refers_optional, refers_required]
      exact ⟨fun row hrow => (htxs row hrow).2, fun row hrow => (houtputs row hrow).2.1,
        fun row hrow => (houtputs row hrow).2.2.1, fun row hrow => (houtputs row hrow).2.2.2,
        fun row hrow => (hcommissions row hrow).2, fun row hrow => (hlabels row hrow).1,
        fun row hrow => (hlabels row hrow).2, fun row hrow => (htags row hrow).1,
        fun row hrow => (htags row hrow).2, fun row hrow => (hfields row hrow).2,
        fun row hrow => (hreqs row hrow).elim fun _ h => h.2.2, nofun⟩
    · simp only [List.forall_mem_cons] at hnames
      obtain ⟨hbaskets, htagRows, hlabelRows, hcertificates, hstates, -⟩ := hnames
      refine ⟨userId, huser, ?_⟩
      simp only [ownedTables, List.forall_mem_cons]
      exact ⟨fun row hrow => (htxs row hrow).1, hbaskets, htagRows, hlabelRows, hcertificates, hstates,
        fun row hrow => (houtputs row hrow).1, fun row hrow => (hcommissions row hrow).1,
        fun row hrow => (hfields row hrow).1, nofun⟩
    · intro row hrow
      obtain ⟨txid, htxid, hmem, -⟩ := hreqs row hrow
      simp only [Bool.not_eq_true', Bool.not_eq_false, List.contains_iff_mem, List.mem_filterMap] at hmem
      exact ⟨txid, htxid, hmem⟩
  · intro h
    obtain ⟨userId, huser, howned⟩ := h.owned
    have hkeys := h.keys
    have hrefers := h.refers
    simp only [primaryKeys, List.forall_mem_cons] at hkeys
    simp only [references, List.forall_mem_cons, refers_optional, refers_required] at hrefers
    simp only [ownedTables, List.forall_mem_cons] at howned
    obtain ⟨ktx, kproven, kbasket, koutput, ktag, klabel, kcertificate, -⟩ := hkeys
    obtain ⟨rproven, rtx, rbasket, rspent, rcommission, rlabelTx, rlabel, rtagOutput, rtag,
      rcertificate, rreq, -⟩ := hrefers
    obtain ⟨otxs, obaskets, otags, olabels, ocertificates, ostates, ooutputs, ocommissions, ofields, -⟩ :=
      howned
    obtain ⟨txIds, htx⟩ := hset ktx
    obtain ⟨provenTxIds, hproven⟩ := hset kproven
    obtain ⟨basketIds, hbasket⟩ := hset kbasket
    obtain ⟨outputIds, houtput⟩ := hset koutput
    obtain ⟨tagIds, htag⟩ := hset ktag
    obtain ⟨labelIds, hlabel⟩ := hset klabel
    obtain ⟨certificateIds, hcertificate⟩ := hset kcertificate
    refine ⟨userId, huser, txIds, htx, provenTxIds, hproven, basketIds, hbasket, outputIds, houtput,
      tagIds, htag, labelIds, hlabel, certificateIds, hcertificate, ?_⟩
    simp only [mem_ids htx, mem_ids hproven, mem_ids hbasket, mem_ids houtput, mem_ids htag,
      mem_ids hlabel, mem_ids hcertificate, List.forall_mem_cons]
    refine ⟨fun row hrow => ⟨otxs row hrow, rproven row hrow⟩,
      ⟨obaskets, otags, olabels, ocertificates, ostates, nofun⟩,
      fun row hrow => ⟨ooutputs row hrow, rtx row hrow, rbasket row hrow, rspent row hrow⟩,
      fun row hrow => ⟨ocommissions row hrow, rcommission row hrow⟩,
      fun row hrow => ⟨rlabelTx row hrow, rlabel row hrow⟩,
      fun row hrow => ⟨rtagOutput row hrow, rtag row hrow⟩,
      fun row hrow => ⟨ofields row hrow, rcertificate row hrow⟩, fun row hrow => ?_⟩
    obtain ⟨txid, htxid, hmem⟩ := h.requested row hrow
    refine ⟨txid, htxid, ?_, rreq row hrow⟩
    simpa only [Bool.not_eq_true', Bool.not_eq_false, List.contains_iff_mem, List.mem_filterMap] using hmem

/-! ## The document -/

/-- The parts of a document. -/
structure Sections where
  document : Row
  sourceStorage : Row
  user : Row
  tables : Row

/-- A document of the format, with its parts. -/
structure Accepted (chrono : Chrono) (value : Value) (d : Sections) : Prop where
  nulls : NoNulls value
  document : asObject value = some d.document
  brc : keyOf "brc" d.document = some 38
  title : (get d.document "title").bind asStr = some brc38Title
  formatVersion : keyOf "formatVersion" d.document = some 1
  exportedAt : IsoDate chrono ((get d.document "exportedAt").getD .null)
  sourceStorage : (get d.document "sourceStorage").bind asObject = some d.sourceStorage
  user : (get d.document "user").bind asObject = some d.user
  tables : (get d.document "tables").bind asObject = some d.tables
  storageColumns : Columns chrono "settings" d.sourceStorage
  userColumns : Columns chrono "user" d.user
  rows : ∀ t ∈ tableKinds, ∃ rows : List Row, (get d.tables t.2).bind asArray = some (rows.map .object) ∧
    ∀ row ∈ rows, Columns chrono t.1 row
  related : Related d.user (rowsOf d.tables)

theorem requireObject_ok {map : Row} {name : String} {row : Row} :
    requireObject map name = .ok row ↔ (get map name).bind asObject = some row := by
  unfold requireObject
  cases (get map name).bind asObject <;> simp

theorem asObject_eq_some {v : Value} {row : Row} : asObject v = some row ↔ v = .object row := by
  unfold asObject
  split <;> simp_all

theorem tableRows_ok {tables : Row} {name : String} {rows : List Row} :
    tableRows tables name = .ok rows ↔
      ((get tables name).bind asArray).getD [] = rows.map .object := by
  unfold tableRows
  generalize ((get tables name).bind asArray).getD [] = items
  have hitems : items.zipIdx.map (·.1) = items := List.zipIdx_map_fst ..
  rw [mapM_ok_iff (P := fun x => (asObject x.1).isSome = true) (g := fun x => (asObject x.1).getD [])]
  · constructor
    · rintro ⟨hsome, rfl⟩
      rw [List.map_map]
      refine hitems.symm.trans (List.map_congr_left fun x hx => ?_)
      obtain ⟨row, hrow⟩ := Option.isSome_iff_exists.mp (hsome x hx)
      rw [Function.comp, hrow, Option.getD_some]
      exact asObject_eq_some.mp hrow
    · intro heq
      constructor
      · intro x hx
        obtain ⟨row, -, hrow⟩ := List.mem_map.mp (heq ▸ List.fst_mem_of_mem_zipIdx hx)
        rw [← hrow]
        rfl
      · have hrows : (items.zipIdx.map (·.1)).map (fun v => (asObject v).getD []) = rows := by
          rw [hitems, heq, List.map_map]
          exact List.map_id rows
        rw [← hrows, List.map_map]
        rfl
  · rintro ⟨v, i⟩ - row
    dsimp only
    cases asObject v <;> simp [eq_comm]

theorem checkBrc38_ok {chrono : Chrono} {value : Value} :
    checkBrc38 chrono value = .ok () ↔ ∃ d, Accepted chrono value d := by
  unfold checkBrc38
  simp only [bind_ok_iff, rejectNulls_ok, Unique.exists_iff, PUnit.default_eq_unit]
  cases hdoc : asObject value with
  | none =>
    refine iff_of_false (fun h => by cases h.2) ?_
    rintro ⟨d, h⟩
    cases hdoc.symm.trans h.document
  | some document =>
    dsimp only
    simp only [refuse_ok_iff, bind_ok_iff, assertIsoDate_ok, requireObject_ok, forM_ok, guard_ok_iff,
      validatePortableRows_ok, tableRows_ok, validateRelationships_ok, Unique.exists_iff,
      PUnit.default_eq_unit, bne_iff_ne, ne_eq, not_not, List.forall_mem_singleton]
    constructor
    · rintro ⟨hnulls, hbrc, htitle, hformat, hdate, storage, hstorage, user, huser, tables, htables,
        harrays, hstorageColumns, huserColumns, hrows, hrelated⟩
      refine ⟨⟨document, storage, user, tables⟩, hnulls, hdoc, hbrc, htitle, hformat, hdate, hstorage,
        huser, htables, hstorageColumns, huserColumns, fun t ht => ?_, hrelated⟩
      obtain ⟨items, hitems⟩ := Option.isSome_iff_exists.mp (harrays t ht)
      obtain ⟨rows, heq, hcolumns⟩ := hrows t ht
      rw [hitems, Option.getD_some] at heq
      exact ⟨rows, heq ▸ hitems, hcolumns⟩
    · rintro ⟨⟨_, storage, user, tables⟩, h⟩
      obtain rfl := Option.some.inj (hdoc.symm.trans h.document)
      refine ⟨h.nulls, h.brc, h.title, h.formatVersion, h.exportedAt, storage, h.sourceStorage, user,
        h.user, tables, h.tables, fun t ht => ?_, h.storageColumns, h.userColumns, fun t ht => ?_,
        h.related⟩
      · obtain ⟨rows, hrows, -⟩ := h.rows t ht
        rw [hrows]
        rfl
      · obtain ⟨rows, hrows, hcolumns⟩ := h.rows t ht
        exact ⟨rows, by rw [hrows, Option.getD_some], hcolumns⟩

/-- A key names at most one row, so a reference names exactly one. -/
theorem Related.refers_one {user : Row} {table : Tables} (h : Related user table) {r : Reference}
    (hr : r ∈ references) {row : Row} (hrow : row ∈ table r.table) :
    (r.optional = true ∧ present row r.field = none) ∨ ∃ id, keyOf r.field row = some id ∧
      (table r.target).countP (fun t => keyOf r.key t == some id) = 1 := by
  have hkey : ∀ r ∈ references, (r.target, r.key) ∈ primaryKeys := by
    simp [references, primaryKeys]
  rcases h.refers r hr row hrow with habsent | ⟨id, ⟨target, htarget, hid⟩, hfield⟩
  · exact .inl habsent
  · obtain ⟨ids, hids, hnodup⟩ := h.keys _ (hkey r hr)
    refine .inr ⟨id, hfield, ?_⟩
    have hcount : ((table r.target).map (keyOf r.key)).count (some id) = 1 := by
      refine List.count_eq_one_of_mem ?_ (List.mem_map.mpr ⟨target, htarget, hid⟩)
      rw [hids]
      exact hnodup.map (Option.some_injective Int)
    rwa [List.count, List.countP_map] at hcount

theorem validateBrc38_ok {chrono : Chrono} {value : Value} :
    (validateBrc38 chrono value).isOk = true ↔ checkBrc38 chrono value = .ok () := by
  unfold validateBrc38
  split
  · rename_i h
    exact iff_of_true rfl h
  · rename_i e h
    rw [h]
    exact iff_of_false nofun nofun

/-- The validator accepts the documents of the format and no others: the columns have their shapes,
keys are unique, the user's rows are the user's, and every foreign key names one row. -/
theorem validateBrc38_iff {chrono : Chrono} {value : Value} :
    (validateBrc38 chrono value).isOk = true ↔ ∃ d, Accepted chrono value d ∧
      ∀ r ∈ references, ∀ row ∈ rowsOf d.tables r.table,
        (r.optional = true ∧ present row r.field = none) ∨ ∃ id, keyOf r.field row = some id ∧
          (rowsOf d.tables r.target).countP (fun t => keyOf r.key t == some id) = 1 := by
  rw [validateBrc38_ok, checkBrc38_ok]
  exact exists_congr fun d => ⟨fun h => ⟨h, fun r hr row hrow => h.related.refers_one hr hrow⟩,
    fun h => h.1⟩

/-! ## Documents up to the order of keys -/

section Rel

variable {α β γ δ : Type} {R : α → β → Prop} {S : γ → δ → Prop} {a : Option α} {b : Option β}

theorem rel_some (h : Option.Rel R a b) {x : α} (ha : a = some x) : ∃ y, b = some y ∧ R x y := by
  subst ha
  cases h with
  | some h => exact ⟨_, rfl, h⟩

theorem rel_none (h : Option.Rel R a b) (ha : a = none) : b = none := by
  subst ha
  cases h with
  | none => rfl

theorem rel_bind {f : α → Option γ} {g : β → Option δ} (h : Option.Rel R a b)
    (hfg : ∀ x y, R x y → Option.Rel S (f x) (g y)) : Option.Rel S (a.bind f) (b.bind g) := by
  cases h with
  | some h => exact hfg _ _ h
  | none => exact .none

theorem rel_getD {a : Option (List α)} {b : Option (List β)} (h : Option.Rel (List.Forall₂ R) a b) :
    List.Forall₂ R (a.getD []) (b.getD []) := by
  cases h with
  | some h => exact h
  | none => exact .nil

end Rel

/-- Values of distinct keys that are the same up to the order of keys and the way an integer is kept. -/
structure Matching (v w : Value) : Prop where
  same : Same v w
  left : v.Distinct
  right : w.Distinct

theorem Matching.symm {v w : Value} (h : Matching v w) : Matching w v :=
  ⟨(same_iff h.right h.left).mpr ((same_iff h.left h.right).mp h.same).symm, h.right, h.left⟩

theorem get_eq_some {row : Row} (h : (row.map (·.1)).Nodup) {key : String} {v : Value} :
    get row key = some v ↔ (key, v) ∈ row := by
  unfold get
  induction row with
  | nil => simp
  | cons f row ih =>
    obtain ⟨hf, hrow⟩ := List.nodup_cons.mp h
    rw [List.lookup_cons, List.mem_cons]
    by_cases hkey : key = f.1
    · subst hkey
      rw [beq_self_eq_true]
      constructor
      · exact fun heq => .inl (Prod.ext rfl (Option.some.inj heq).symm)
      · rintro (heq | hmem)
        · rw [← heq]
        · exact absurd (List.mem_map.mpr ⟨_, hmem, rfl⟩) hf
    · rw [beq_false_of_ne hkey, ih hrow]
      exact ⟨.inr, fun h => h.resolve_left fun heq => hkey (congrArg Prod.fst heq)⟩

abbrev MatchingRow (row row' : Row) : Prop := Matching (.object row) (.object row')

theorem MatchingRow.get {row row' : Row} (h : MatchingRow row row') (key : String) :
    Option.Rel Matching (get row key) (get row' key) := by
  have hsome : ∀ {row row' : Row} {v : Value}, MatchingRow row row' → Portable.get row key = some v →
      ∃ w, Portable.get row' key = some w ∧ Matching v w := by
    intro row row' v h hv
    obtain ⟨hnames, hvalues⟩ := Json.all_object.mp h.left
    obtain ⟨hnames', hvalues'⟩ := Json.all_object.mp h.right
    have hmem := (get_eq_some hnames).mp hv
    obtain ⟨w, hw, halike⟩ := Json.alikeFields_iff.mp h.same.2 _ hmem
    exact ⟨w, (get_eq_some hnames').mpr hw, halike, hvalues _ hmem, hvalues' _ hw⟩
  cases hv : Portable.get row key with
  | some v =>
    obtain ⟨w, hw, hmatch⟩ := hsome h hv
    rw [hw]
    exact .some hmatch
  | none =>
    cases hw : Portable.get row' key with
    | none => exact .none
    | some w =>
      obtain ⟨v, hv', -⟩ := hsome h.symm hw
      rw [hv] at hv'
      cases hv'

theorem Number.jsInt_normal (n : Number) : jsInt (some (.number n.normal)) = jsInt (some (.number n)) := by
  cases n with
  | integer i h => rfl
  | float f =>
    by_cases hsafe : ∃ i, f.integral? = some i ∧ i.natAbs ≤ maxSafeInteger
    · obtain ⟨i, hi, hsafe⟩ := hsafe
      obtain ⟨h, hnormal⟩ := Number.normal_safe hi hsafe
      unfold maxSafeInteger at hsafe
      rw [hnormal]
      have hinteger : (Number.integer i h).asI64 = some i := if_pos (by omega)
      have hfloat : (Number.float f).asF64.bind F64.integral? = some i := hi
      have hrange : -9223372036854775808 ≤ i ∧ i ≤ 9223372036854775808 := by omega
      unfold jsInt
      dsimp only
      rw [hinteger, hfloat, show (Number.float f).asI64 = none from rfl]
      dsimp only
      rw [if_pos hrange, min_eq_left (by omega)]
    · rw [Number.normal_unsafe fun i hi h => hsafe ⟨i, hi, h⟩]

namespace Matching

variable {v w : Value}

theorem jsInt {a b : Option Value} (h : Option.Rel Matching a b) : jsInt a = jsInt b := by
  cases h with
  | none => rfl
  | some h =>
    rename_i v w
    have hsame := h.same
    cases v with
    | number n =>
      cases w with
      | number m => rw [← n.jsInt_normal, ← m.jsInt_normal, show n.normal = m.normal from hsame]
      | _ => exact hsame.elim
    | _ => cases w <;> first | rfl | exact hsame.elim

theorem asStr {a b : Option Value} (h : Option.Rel Matching a b) :
    a.bind asStr = b.bind asStr := by
  cases h with
  | none => rfl
  | some h =>
    rename_i v w
    have hsame := h.same
    cases v with
    | string s =>
      cases w with
      | string t => rw [show s = t from hsame]
      | _ => exact hsame.elim
    | _ => cases w <;> first | rfl | exact hsame.elim

theorem asObject (h : Matching v w) : Option.Rel MatchingRow (asObject v) (asObject w) := by
  have hsame := h.same
  cases v with
  | object fields =>
    cases w with
    | object others => exact .some h
    | _ => exact hsame.elim
  | _ => cases w <;> first | exact .none | exact hsame.elim

theorem asArray (h : Matching v w) : Option.Rel (List.Forall₂ Matching) (asArray v) (asArray w) := by
  have hsame := h.same
  cases v with
  | array items =>
    cases w with
    | array others =>
      have hitems := Json.alikeItems_iff.mp hsame
      have hleft := Json.all_array.mp h.left
      have hright := Json.all_array.mp h.right
      refine .some (List.forall₂_iff_get.mpr ⟨hitems.length_eq, fun i hi hi' => ⟨?_, ?_, ?_⟩⟩)
      · exact hitems.get hi hi'
      · exact hleft _ (List.getElem_mem hi)
      · exact hright _ (List.getElem_mem hi')
    | _ => exact hsame.elim
  | _ => cases w <;> first | exact .none | exact hsame.elim

theorem noNulls (h : Matching v w) (hv : NoNulls v) : NoNulls w := by
  have hform := (same_iff h.left h.right).mp h.same
  have hplain : NoNulls (canonicalForm v) := Json.all_ordered_iff.mpr hv
  rw [hform] at hplain
  exact Json.all_ordered_iff.mp hplain

theorem isoDate {chrono : Chrono} (h : Matching v w) (hv : IsoDate chrono v) : IsoDate chrono w := by
  obtain ⟨s, printed, hs, hdate⟩ := hv
  have hstr : Portable.asStr v = Portable.asStr w := Matching.asStr (.some h)
  exact ⟨s, printed, hstr ▸ hs, hdate⟩

theorem base64 (h : Matching v w) (hv : Base64 v) : Base64 w := by
  obtain ⟨s, body, pad, hs, hbytes⟩ := hv
  have hstr : Portable.asStr v = Portable.asStr w := Matching.asStr (.some h)
  exact ⟨s, body, pad, hstr ▸ hs, hbytes⟩

end Matching

namespace MatchingRow

variable {row row' : Row}

theorem keyOf (h : MatchingRow row row') (field : String) : keyOf field row = keyOf field row' :=
  Matching.jsInt (h.get field)

theorem asStr (h : MatchingRow row row') (field : String) :
    (Portable.get row field).bind asStr = (Portable.get row' field).bind asStr :=
  Matching.asStr (h.get field)

theorem present (h : MatchingRow row row') {field : String} (hnone : present row field = none) :
    Portable.present row' field = none := by
  unfold Portable.present at hnone ⊢
  cases hv : Portable.get row field with
  | none => rw [rel_none (h.get field) hv]
  | some v =>
    obtain ⟨w, hw, hmatch⟩ := rel_some (h.get field) hv
    have hsame := hmatch.same
    rw [hv] at hnone
    rw [hw]
    cases v with
    | null => cases w <;> first | rfl | exact hsame.elim
    | _ => cases hnone

theorem object (h : MatchingRow row row') {field : String} {part : Row}
    (hpart : (Portable.get row field).bind asObject = some part) :
    ∃ part', (Portable.get row' field).bind asObject = some part' ∧ MatchingRow part part' :=
  rel_some (rel_bind (h.get field) fun _ _ hmatch => hmatch.asObject) hpart

theorem field (h : MatchingRow row row') {P : Value → Prop}
    (hP : ∀ {v w}, Matching v w → P v → P w) {name : String}
    (hv : ∀ v, Portable.get row name = some v → P v) {w : Value}
    (hw : Portable.get row' name = some w) : P w := by
  obtain ⟨v, hv', hmatch⟩ := rel_some (MatchingRow.get h.symm name) hw
  exact hP hmatch.symm (hv v hv')

theorem columns {chrono : Chrono} {kind : String} (h : MatchingRow row row')
    (hrow : Columns chrono kind row) : Columns chrono kind row' where
  dates name hname _ := h.field Matching.isoDate (hrow.dates name hname)
  bytes name hname _ := h.field Matching.base64 (hrow.bytes name hname)
  objects name hname _ := by
    refine h.field (P := fun v => isObject v = true) (fun hmatch hv => ?_) (hrow.objects name hname)
    obtain ⟨part, hpart⟩ := Option.isSome_iff_exists.mp hv
    obtain ⟨part', hpart', -⟩ := rel_some hmatch.asObject hpart
    exact Option.isSome_iff_exists.mpr ⟨part', hpart'⟩

end MatchingRow

section Related

variable {user user' : Row} {table table' : Tables}

theorem exists_matching {rows rows' : List Row} (h : List.Forall₂ MatchingRow rows rows') :
    (∀ row' ∈ rows', ∃ row ∈ rows, MatchingRow row row') ∧
      ∀ row ∈ rows, ∃ row' ∈ rows', MatchingRow row row' := by
  induction h with
  | nil => exact ⟨nofun, nofun⟩
  | cons hrow _ ih =>
    rw [List.forall_mem_cons, List.forall_mem_cons]
    refine ⟨⟨⟨_, List.mem_cons_self, hrow⟩, fun row' h => ?_⟩, ⟨_, List.mem_cons_self, hrow⟩,
      fun row h => ?_⟩
    · obtain ⟨row, hmem, hmatch⟩ := ih.1 row' h
      exact ⟨row, List.mem_cons_of_mem _ hmem, hmatch⟩
    · obtain ⟨row', hmem, hmatch⟩ := ih.2 row h
      exact ⟨row', List.mem_cons_of_mem _ hmem, hmatch⟩

theorem Related.matching (h : Related user table) (huser : MatchingRow user user')
    (htable : ∀ name, List.Forall₂ MatchingRow (table name) (table' name)) : Related user' table' := by
  have hback := fun name => (exists_matching (htable name)).1
  have hforth := fun name => (exists_matching (htable name)).2
  constructor
  · intro k hk
    have hcolumn : (table' k.1).map (keyOf k.2) = (table k.1).map (keyOf k.2) := by
      refine (Json.forall₂_iff_map_eq (R := fun row row' => keyOf k.2 row = keyOf k.2 row')
        fun _ _ _ _ => Iff.rfl).mp ?_ |>.symm
      exact (htable k.1).imp fun _ _ hrow => hrow.keyOf k.2
    rw [hcolumn]
    exact h.keys k hk
  · intro r hr row' hrow'
    obtain ⟨row, hrow, hmatch⟩ := hback _ row' hrow'
    rcases h.refers r hr row hrow with ⟨hoptional, hnone⟩ | ⟨id, ⟨target, htarget, hid⟩, hfield⟩
    · exact .inl ⟨hoptional, hmatch.present hnone⟩
    · obtain ⟨target', htarget', hmatch'⟩ := hforth _ target htarget
      exact .inr ⟨id, ⟨target', htarget', (hmatch'.keyOf _).symm.trans hid⟩,
        (hmatch.keyOf _).symm.trans hfield⟩
  · obtain ⟨userId, hid, hrows⟩ := h.owned
    refine ⟨userId, (huser.keyOf _).symm.trans hid, fun name hname row' hrow' => ?_⟩
    obtain ⟨row, hrow, hmatch⟩ := hback _ row' hrow'
    exact (hmatch.keyOf _).symm.trans (hrows name hname row hrow)
  · intro row' hrow'
    obtain ⟨row, hrow, hmatch⟩ := hback _ row' hrow'
    obtain ⟨txid, htxid, t, ht, htx⟩ := h.requested row hrow
    obtain ⟨t', ht', hmatch'⟩ := hforth _ t ht
    exact ⟨txid, (hmatch.asStr _).symm.trans htxid, t', ht', (hmatch'.asStr _).symm.trans htx⟩

end Related

theorem rowsOf_matching {tables tables' : Row} (h : MatchingRow tables tables') (name : String) :
    List.Forall₂ MatchingRow (rowsOf tables name) (rowsOf tables' name) :=
  List.rel_filterMap (fun _ _ hmatch => hmatch.asObject)
    (rel_getD (rel_bind (h.get name) fun _ _ hmatch => hmatch.asArray))

theorem matching_objects {rows : List Row} {items : List Value}
    (h : List.Forall₂ Matching (rows.map .object) items) :
    ∃ rows' : List Row, items = rows'.map .object ∧ List.Forall₂ MatchingRow rows rows' := by
  induction rows generalizing items with
  | nil =>
    cases h
    exact ⟨[], rfl, .nil⟩
  | cons row rows ih =>
    rw [List.map_cons, List.forall₂_cons_left_iff] at h
    obtain ⟨v, rest, hrow, hrest, rfl⟩ := h
    obtain ⟨row', hv, hmatch⟩ := rel_some hrow.asObject rfl
    obtain ⟨rows', rfl, hrows⟩ := ih hrest
    exact ⟨row' :: rows', by rw [asObject_eq_some.mp hv, List.map_cons], .cons hmatch hrows⟩

theorem Accepted.matching {chrono : Chrono} {v w : Value} {d : Sections} (h : Accepted chrono v d)
    (hmatch : Matching v w) : ∃ d', Accepted chrono w d' := by
  obtain ⟨document, hdocument, hdoc⟩ := rel_some hmatch.asObject h.document
  obtain ⟨storage, hstorage, hstorageRow⟩ := hdoc.object h.sourceStorage
  obtain ⟨user, huser, huserRow⟩ := hdoc.object h.user
  obtain ⟨tables, htables, htablesRow⟩ := hdoc.object h.tables
  refine ⟨⟨document, storage, user, tables⟩, ?_⟩
  constructor
  · exact hmatch.noNulls h.nulls
  · exact hdocument
  · exact (hdoc.keyOf _).symm.trans h.brc
  · exact (hdoc.asStr _).symm.trans h.title
  · exact (hdoc.keyOf _).symm.trans h.formatVersion
  · cases hdate : get d.document "exportedAt" with
    | none =>
      rw [rel_none (hdoc.get _) hdate]
      exact hdate ▸ h.exportedAt
    | some date =>
      obtain ⟨date', hdate', hsame⟩ := rel_some (hdoc.get _) hdate
      rw [hdate']
      refine hsame.isoDate ?_
      have hold := h.exportedAt
      rwa [hdate] at hold
  · exact hstorage
  · exact huser
  · exact htables
  · exact hstorageRow.columns h.storageColumns
  · exact huserRow.columns h.userColumns
  · intro t ht
    obtain ⟨rows, hrows, hcolumns⟩ := h.rows t ht
    obtain ⟨items, hitems, hall⟩ :=
      rel_some (rel_bind (htablesRow.get t.2) fun _ _ hmatch => hmatch.asArray) hrows
    obtain ⟨rows', rfl, hmatching⟩ := matching_objects hall
    refine ⟨rows', hitems, fun row' hrow' => ?_⟩
    obtain ⟨row, hrow, hsame⟩ := (exists_matching hmatching).1 row' hrow'
    exact hsame.columns (hcolumns row hrow)
  · exact h.related.matching huserRow (rowsOf_matching htablesRow)

theorem Matching.checked {chrono : Chrono} {v w : Value} (h : Matching v w)
    (hv : checkBrc38 chrono v = .ok ()) : checkBrc38 chrono w = .ok () := by
  obtain ⟨d, hd⟩ := checkBrc38_ok.mp hv
  exact checkBrc38_ok.mpr (hd.matching h)

end WalletToolbox.Portable
