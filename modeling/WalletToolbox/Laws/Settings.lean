import WalletToolbox.Wallet.Settings

/-! # The cached settings and the stored ones

A `get` reads and fills the cache under the lock, so it can only be overtaken by a `set` that still
has to fill the cache itself.
Two `set` calls can overtake each other between the storage and the cache.
When they do not, the cache agrees with the storage as soon as the newest write has reached it. -/

namespace WalletToolbox.SettingsManager

open WalletToolbox.Lib

/-- The JSON library reads back what it wrote, and reads nothing off the empty text. -/
structure Codec.RoundTrips (codec : Codec) : Prop where
  decode : ∀ settings json, codec.encode settings = .ok json → codec.decode json = .ok settings
  empty : ∀ settings, codec.decode "" ≠ .ok settings

/-- The `set` of the newest write has still to fill the cache. -/
def State.NewestPending (s : State) : Prop :=
  ∃ p ∈ s.stored, p.1 = s.writes.length

/-- A `set` fills the cache only if its write is the newest, or while the `set` of the newest write
has still to do so. -/
def InOrder (s : State) : Op → Prop
  | .setCache write => write = s.writes.length ∨ s.NewestPending
  | _ => True

instance (s : State) : Decidable s.NewestPending :=
  inferInstanceAs (Decidable (∃ p ∈ s.stored, p.1 = s.writes.length))

instance (s : State) : ∀ op, Decidable (InOrder s op)
  | .setCache write =>
    inferInstanceAs (Decidable (write = s.writes.length ∨ s.NewestPending))
  | .tick _ | .setStore _ _ | .getLock | .getRead _ | .getCache | .invalidateCache => isTrue trivial

instance (s : State) : ∀ op : Op, Decidable (op.Enabled s)
  | .tick _ | .setStore _ _ => isTrue trivial
  | .setCache write =>
    inferInstanceAs (Decidable (s.holder = none ∧ (s.stored.any (·.1 == write)) = true))
  | .getLock | .invalidateCache => inferInstanceAs (Decidable (s.holder = none))
  | .getRead _ => inferInstanceAs (Decidable (s.holder = some none))
  | .getCache => inferInstanceAs (Decidable ((s.holder.any (·.isSome)) = true))

instance (codec : Codec) (defaults : WalletSettings) (rows : List (Option String)) (s : State)
    (op : Op) : Decidable ((manager codec defaults rows).Enabled s op) :=
  inferInstanceAs (Decidable (op.Enabled s))

section Runs

variable {codec : Codec} {defaults settings : WalletSettings} {rows : List (Option String)}
  {json : String} {s : State} {op : Op} {p : Nat × WalletSettings}

/-- What is written is read back, if there is a row to write to. -/
theorem readSettings_written (hcodec : codec.RoundTrips) (hrows : rows ≠ [])
    (hencode : codec.encode settings = .ok json) :
    readSettings codec defaults (rows.map fun _ => some json) = settings := by
  have hdecode := hcodec.decode settings json hencode
  cases rows with
  | nil => exact absurd rfl hrows
  | cons row rest =>
    have hjson : json.isEmpty = false := by
      refine Bool.eq_false_iff.mpr fun hempty => ?_
      rw [String.isEmpty_iff.mp hempty] at hdecode
      exact hcodec.empty settings hdecode
    simp [readSettings, hjson, hdecode]

/-- The storage holds the newest write, and the cache and a `get` agree with it as soon as this write
has reached the cache. -/
structure Agrees (codec : Codec) (defaults : WalletSettings) (s : State) : Prop where
  rows : s.rows ≠ []
  numbers : ∀ p ∈ s.stored, 0 < p.1 ∧ s.writes[p.1 - 1]? = some p.2
  newest : ∀ v ∈ s.writes.getLast?, readSettings codec defaults s.rows = v
  cache : ¬s.NewestPending → ∀ e ∈ s.cache, e.value = readSettings codec defaults s.rows
  holder : ¬s.NewestPending → ∀ v, s.holder = some (some v) →
    v = readSettings codec defaults s.rows

theorem Agrees.start (hrows : rows ≠ []) : Agrees codec defaults (.start rows) where
  rows := hrows
  numbers := nofun
  newest := nofun
  cache _ := nofun
  holder _ := nofun

/-- A write becomes the newest, and its `set` has still to fill the cache. -/
theorem Agrees.write (h : Agrees codec defaults s) (hcodec : codec.RoundTrips)
    (hencode : codec.encode settings = .ok json) :
    Agrees codec defaults { s with
      rows := s.rows.map fun _ => some json
      stored := s.stored ++ [(s.writes.length + 1, settings)]
      writes := s.writes ++ [settings] } := by
  have hpending : State.NewestPending { s with
      rows := s.rows.map fun _ => some json
      stored := s.stored ++ [(s.writes.length + 1, settings)]
      writes := s.writes ++ [settings] } :=
    ⟨_, List.mem_append_right _ (List.mem_singleton_self _), by simp⟩
  refine ⟨by simpa using h.rows, fun p hp => ?_, ?_, fun hnot => absurd hpending hnot,
    fun hnot => absurd hpending hnot⟩
  · rcases List.mem_append.mp hp with hp | hp
    · obtain ⟨hpos, hwrite⟩ := h.numbers p hp
      refine ⟨hpos, ?_⟩
      rw [List.getElem?_append_left (List.getElem?_eq_some_iff.mp hwrite).1]
      exact hwrite
    · rw [List.mem_singleton.mp hp]
      simp
  · intro v hv
    have hlast : settings = v := by simpa using hv
    rw [← hlast]
    exact readSettings_written hcodec h.rows hencode

/-- The settings that a call puts into the cache are those in the storage, unless the newest write is
still to come. -/
theorem Agrees.fill (h : Agrees codec defaults s) {stored : List (Nat × WalletSettings)}
    (hstored : ∀ p ∈ stored, p ∈ s.stored)
    (hvalue : ¬State.NewestPending { s with stored } →
      settings = readSettings codec defaults s.rows) :
    Agrees codec defaults { s.put settings with stored, holder := none } where
  rows := h.rows
  numbers p hp := h.numbers p (hstored p hp)
  newest := h.newest
  cache hnot e he := by
    cases he
    exact hvalue hnot
  holder _ := nofun

theorem Agrees.setCache (h : Agrees codec defaults s) {write : Nat} (hholder : s.holder = none)
    (hfind : s.stored.find? (·.1 == write) = some p) (hmeets : InOrder s (.setCache write)) :
    Agrees codec defaults { s.put p.2 with stored := s.stored.filter (·.1 != write) } := by
  have hmem := List.mem_of_find?_eq_some hfind
  have hnumber : p.1 = write := by simpa using List.find?_some hfind
  have hvalue : ¬State.NewestPending { s with stored := s.stored.filter (·.1 != write) } →
      p.2 = readSettings codec defaults s.rows := by
    intro hnot
    refine (h.newest p.2 ?_).symm
    have hwrite : write = s.writes.length := by
      rcases hmeets with hwrite | ⟨q, hq, hnewest⟩
      · exact hwrite
      · by_contra hne
        refine hnot ⟨q, List.mem_filter.mpr ⟨hq, ?_⟩, hnewest⟩
        rw [bne_iff_ne, hnewest]
        exact fun heq => hne heq.symm
    rw [Option.mem_def, List.getLast?_eq_getElem?, ← hwrite, ← hnumber]
    exact (h.numbers p hmem).2
  have hfill := h.fill (fun q hq => (List.mem_filter.mp hq).1) hvalue
  rw [← hholder] at hfill
  exact hfill

theorem Agrees.step (hcodec : codec.RoundTrips) (h : Agrees codec defaults s)
    (henabled : op.Enabled s) (hmeets : InOrder s op) :
    Agrees codec defaults (op.next codec defaults s) := by
  cases op with
  | tick duration => exact { h with }
  | setStore settings answers =>
    simp only [Op.next]
    cases hencode : codec.encode settings with
    | error e => exact h
    | ok json =>
      cases answers with
      | false => exact h
      | true => exact h.write hcodec hencode
  | setCache write =>
    simp only [Op.next]
    cases hfind : s.stored.find? (·.1 == write) with
    | none => exact h
    | some p => exact h.setCache henabled.1 hfind hmeets
  | getLock =>
    simp only [Op.next]
    cases s.freshValue with
    | some v => exact h
    | none => exact { h with holder := fun _ => nofun }
  | getRead answers =>
    cases answers with
    | false => exact { h with holder := fun _ => nofun }
    | true =>
      refine { h with holder := fun _ v hv => ?_ }
      cases hv
      rfl
  | getCache =>
    simp only [Op.next]
    split
    · rename_i settings hholder
      exact h.fill (fun _ hp => hp) fun hnot => h.holder hnot settings hholder
    · exact h
  | invalidateCache => exact { h with cache := fun _ => nofun }

end Runs

/-- Once all calls have returned, the cache holds what the storage holds, and the last settings to
reach the storage are what the next `get` returns. -/
theorem cache_agrees (codec : Codec) (defaults : WalletSettings) (rows : List (Option String))
    (s : State) (hcodec : codec.RoundTrips) (hrows : rows ≠ [])
    (h : (manager codec defaults rows).Reaches InOrder s) (hquiet : s.Quiet) :
    (∀ v, s.freshValue = some v → v = readSettings codec defaults s.rows) ∧
      s.answer codec defaults = readSettings codec defaults s.rows ∧
      ∀ v ∈ s.writes.getLast?, s.answer codec defaults = v := by
  have hagrees : Agrees codec defaults s :=
    h.inv (.start hrows) fun s op hs henabled hmeets => hs.step hcodec henabled hmeets
  have hdone : ¬s.NewestPending := by
    rintro ⟨p, hp, -⟩
    rw [hquiet.2] at hp
    cases hp
  have hfresh : ∀ v, s.freshValue = some v → v = readSettings codec defaults s.rows := by
    intro v hv
    obtain ⟨e, he, rfl⟩ := Option.map_eq_some_iff.mp hv
    exact hagrees.cache hdone e (Option.filter_eq_some_iff.mp he).1
  have hanswer : s.answer codec defaults = readSettings codec defaults s.rows := by
    unfold State.answer
    cases hv : s.freshValue with
    | none => rfl
    | some v => exact hfresh v hv
  exact ⟨hfresh, hanswer, fun v hv => hanswer.trans (hagrees.newest v hv)⟩

/-! ## Two settings and their texts -/

def dark : WalletSettings :=
  { trustSettings := { trustLevel := 2, trustedCertifiers := [] }, theme := some { mode := "dark" }
    currency := none, permissionMode := none }

def light : WalletSettings :=
  { dark with theme := some { mode := "light" } }

def darkJson : String :=
  "\x7b\"trustSettings\":\x7b\"trustLevel\":2,\"trustedCertifiers\":[]\x7d,\"theme\":\x7b\"mode\":\"dark\"\x7d\x7d"

def lightJson : String :=
  "\x7b\"trustSettings\":\x7b\"trustLevel\":2,\"trustedCertifiers\":[]\x7d,\"theme\":\x7b\"mode\":\"light\"\x7d\x7d"

/-- The JSON library on these. -/
def codec : Codec where
  encode v :=
    if v = dark then .ok darkJson else if v = light then .ok lightJson else .error "not encoded"
  decode json :=
    if json = darkJson then .ok dark else if json = lightJson then .ok light
    else .error "expected value"

theorem codec_roundTrips : codec.RoundTrips where
  decode settings json h := by
    simp only [codec] at h
    split_ifs at h with hdark hlight
    · cases h
      rw [hdark]
      decide +kernel
    · cases h
      rw [hlight]
      decide +kernel
  empty settings h := by
    simp only [codec] at h
    split_ifs at h with hdark hlight
    · exact absurd hdark (by decide +kernel)
    · exact absurd hlight (by decide +kernel)

/-- One `set` after another, and a `get` between them. -/
def inTurn : List Op :=
  [.setStore dark true, .setCache 1, .getLock, .setStore light true, .setCache 2]

/-- The second `set` overtakes the first one on the way to the cache. -/
def overtaking : List Op :=
  [.setStore dark true, .setStore light true, .setCache 2, .setCache 1]

theorem cache_agrees_inTurn :
    ∃ s, (manager codec defaultSettings [none]).Reaches InOrder s ∧ s.Quiet ∧
      s.answer codec defaultSettings = light := by
  have hreach : (manager codec defaultSettings [none]).Reaches InOrder
      ((manager codec defaultSettings [none]).after (.start [none]) inTurn) :=
    System.Reaches.after .init (by decide +kernel)
  have hquiet : State.Quiet ((manager codec defaultSettings [none]).after (.start [none]) inTurn) :=
    ⟨by decide +kernel, by decide +kernel⟩
  refine ⟨_, hreach, hquiet, ?_⟩
  refine (cache_agrees codec defaultSettings [none] _ codec_roundTrips (by decide) hreach hquiet).2.2 _ ?_
  decide +kernel

/-- All calls have returned, and the cache holds settings that are not the stored ones. -/
theorem cache_disagrees :
    ∃ s, (manager codec defaultSettings [none]).Reaches (fun _ _ => True) s ∧ s.Quiet ∧
      s.freshValue = some dark ∧ readSettings codec defaultSettings s.rows = light ∧
      codec.RoundTrips ∧ light ≠ dark := by
  refine ⟨(manager codec defaultSettings [none]).after (.start [none]) overtaking,
    System.Reaches.after .init (by decide +kernel), ⟨by decide +kernel, by decide +kernel⟩,
    by decide +kernel, by decide +kernel, codec_roundTrips, by decide +kernel⟩

end WalletToolbox.SettingsManager
