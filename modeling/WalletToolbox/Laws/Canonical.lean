import WalletToolbox.Lib.Guarded
import WalletToolbox.Portable.Canonical

/-! # Canonical JSON is canonical

The canonical text of a value is the plain text of its ordered form.
So two values have one text exactly when they are the same up to the order of keys and the way an
integer is kept, and a parser of JSON reads the text back, as far as it follows the nesting. -/

namespace WalletToolbox.Portable

open WalletToolbox.Lib

/-! ## The order of keys -/

theorem char_range (c : Char) :
    c.toNat < 0x110000 ∧ ¬(0xD800 ≤ c.toNat ∧ c.toNat ≤ 0xDFFF) := by
  have hvalid := c.valid
  simp only [UInt32.isValidChar, Nat.isValidChar] at hvalid
  unfold Char.toNat
  omega

theorem utf16_append_inj {c d : Char} {x y : List Nat} (h : utf16 c ++ x = utf16 d ++ y) :
    c = d ∧ x = y := by
  have hc := char_range c
  have hd := char_range d
  have heq : c.toNat = d.toNat ∧ x = y := by
    unfold utf16 at h
    split at h <;> split at h
    all_goals
      simp only [List.cons_append, List.nil_append, List.cons.injEq] at h
      obtain ⟨hfirst, hrest⟩ := h
    · exact ⟨hfirst, hrest⟩
    · omega
    · omega
    · exact ⟨by omega, hrest.2⟩
  exact ⟨Char.toNat_inj.mp heq.1, heq.2⟩

theorem encodeUtf16_injective : Function.Injective encodeUtf16 := by
  have hchars : ∀ {cs ds : List Char}, cs.flatMap utf16 = ds.flatMap utf16 → cs = ds := by
    intro cs ds h
    induction cs generalizing ds with
    | nil =>
      cases ds with
      | nil => rfl
      | cons d ds =>
        rw [List.flatMap_nil, List.flatMap_cons] at h
        unfold utf16 at h
        split at h <;> cases h
    | cons c cs ih =>
      cases ds with
      | nil =>
        rw [List.flatMap_nil, List.flatMap_cons] at h
        unfold utf16 at h
        split at h <;> cases h
      | cons d ds =>
        rw [List.flatMap_cons, List.flatMap_cons] at h
        obtain ⟨rfl, hrest⟩ := utf16_append_inj h
        rw [ih hrest]
  intro s t h
  exact String.toList_inj.mp (hchars h)

theorem jsStringCmp_isLE {a b : String} :
    (jsStringCmp a b).isLE = true ↔ encodeUtf16 a ≤ encodeUtf16 b := by
  rw [jsStringCmp, compareOfLessAndEq]
  split
  · rename_i hlt
    simp [hlt.le]
  · split
    · rename_i heq
      simp [heq]
    · rename_i hlt hne
      simp [lt_of_le_of_ne (not_lt.mp hlt) (Ne.symm hne)]

/-! ## Numbers and strings -/

theorem integerText_digits (n : Nat) : ∀ c ∈ Nat.toDigits 10 n, c.isDigit = true :=
  fun _ hc => Nat.isDigit_of_mem_toDigits (by decide) (by decide) hc

/-- The integer at the front of a text, as it is written. -/
def readNumber (chars : List Char) : Option (Number × List Char) :=
  let body := if chars.head? = some '-' then chars.tail else chars
  let magnitude := Nat.ofDigitChars 10 (body.takeWhile (·.isDigit)) 0
  let i : Int := if chars.head? = some '-' then -(magnitude : Int) else magnitude
  let rest := body.dropWhile (·.isDigit)
  if h : -9223372036854775808 ≤ i ∧ i < 18446744073709551616 then
    -- Leading zeros and a negative zero are no integer texts.
    if integerText i ++ rest = chars then some (.integer i h, rest) else none
  else none

theorem takeWhile_digits (n : Nat) {rest : List Char} (hrest : Json.Ended rest) :
    (Nat.toDigits 10 n ++ rest).takeWhile (·.isDigit) = Nat.toDigits 10 n ∧
      (Nat.toDigits 10 n ++ rest).dropWhile (·.isDigit) = rest := by
  rw [List.takeWhile_append_of_pos (integerText_digits n),
    List.dropWhile_append_of_pos (integerText_digits n)]
  cases rest with
  | nil => exact ⟨by rw [List.takeWhile_nil, List.append_nil], rfl⟩
  | cons c rest =>
    have hc : c.isDigit = false := by
      rcases hrest c rfl with rfl | rfl | rfl <;> decide
    rw [List.takeWhile_cons_of_neg (by simp [hc]), List.dropWhile_cons_of_neg (by simp [hc]),
      List.append_nil]
    exact ⟨rfl, rfl⟩

theorem toDigits_head (n : Nat) : ∃ c rest, Nat.toDigits 10 n = c :: rest ∧ c.isDigit = true := by
  obtain ⟨c, rest, heq⟩ := List.exists_cons_of_ne_nil (Nat.toDigits_ne_nil (n := n) (b := 10))
  exact ⟨c, rest, heq, integerText_digits n c (heq ▸ List.mem_cons_self)⟩

theorem readNumber_integerText {i : Int} (h : -9223372036854775808 ≤ i ∧ i < 18446744073709551616)
    {rest : List Char} (hrest : Json.Ended rest) :
    readNumber (integerText i ++ rest) = some (.integer i h, rest) := by
  obtain ⟨htake, hdrop⟩ := takeWhile_digits i.natAbs hrest
  have hvalue : Nat.ofDigitChars 10 (Nat.toDigits 10 i.natAbs) 0 = i.natAbs :=
    Nat.ofDigitChars_toDigits (by decide) (by decide)
  by_cases hneg : i < 0
  · have htext : integerText i = '-' :: Nat.toDigits 10 i.natAbs := if_pos hneg
    have hi : -((i.natAbs : Nat) : Int) = i := by omega
    unfold readNumber
    simp only [htext, List.cons_append, List.head?_cons, if_pos, List.tail_cons, htake, hdrop, hvalue, hi,
      dif_pos h]
  · have htext : integerText i = Nat.toDigits 10 i.natAbs := if_neg hneg
    obtain ⟨c, digits, hdigits, hc⟩ := toDigits_head i.natAbs
    have hhead : (Nat.toDigits 10 i.natAbs ++ rest).head? ≠ some '-' := by
      rw [hdigits, List.cons_append, List.head?_cons]
      intro heq
      cases heq
      cases hc
    have hi : ((i.natAbs : Nat) : Int) = i := by omega
    unfold readNumber
    simp only [htext, if_neg hhead, htake, hdrop, hvalue, hi, dif_pos h, if_pos]

/-- The value of a hexadecimal digit. -/
def hexValue (c : Char) : Option Nat :=
  if c.isDigit then some (c.toNat - '0'.toNat)
  else if 'a' ≤ c ∧ c ≤ 'f' then some (c.toNat - 'a'.toNat + 10)
  else if 'A' ≤ c ∧ c ≤ 'F' then some (c.toNat - 'A'.toNat + 10)
  else none

theorem hexValue_hexDigit : ∀ n < 16, hexValue (hexDigit n) = some n := by
  decide

/-- Four hexadecimal digits that name a character; a surrogate pair is not read. -/
def readCode : List Char → Option (Char × List Char)
  | a :: b :: c :: d :: rest => do
    let a ← hexValue a
    let b ← hexValue b
    let c ← hexValue c
    let d ← hexValue d
    let code := ((a * 16 + b) * 16 + c) * 16 + d
    if 0xD800 ≤ code ∧ code ≤ 0xDFFF then none else some (Char.ofNat code, rest)
  | _ => none

/-- The character that an escape stands for. -/
def readEscape : List Char → Option (Char × List Char)
  | [] => none
  | c :: rest =>
    if c = '"' ∨ c = '\\' ∨ c = '/' then some (c, rest)
    else if c = 'b' then some ('\x08', rest)
    else if c = 't' then some ('\t', rest)
    else if c = 'n' then some ('\n', rest)
    else if c = 'f' then some ('\x0c', rest)
    else if c = 'r' then some ('\r', rest)
    else if c = 'u' then readCode rest
    else none

/-- The characters up to the closing quote. -/
def readChars : Nat → List Char → Option (List Char × List Char)
  | 0, _ => none
  | _ + 1, [] => none
  | fuel + 1, c :: rest =>
    if c = '"' then some ([], rest)
    else if c = '\\' then
      match readEscape rest with
      | some (d, rest) => (readChars fuel rest).map fun (cs, rest) => (d :: cs, rest)
      | none => none
    else if c.toNat < 32 then none
    else (readChars fuel rest).map fun (cs, rest) => (c :: cs, rest)

def readString : List Char → Option (String × List Char)
  | '"' :: rest => (readChars rest.length rest).map fun (cs, rest) => (String.ofList cs, rest)
  | _ => none

theorem readChars_escapeChar (c : Char) (fuel : Nat) (rest : List Char) :
    readChars (fuel + 1) (escapeChar c ++ rest) =
      (readChars fuel rest).map fun (cs, rest) => (c :: cs, rest) := by
  unfold escapeChar
  split_ifs with hquote hslash hb ht hn hf hr hcontrol
  · subst hquote
    rfl
  · subst hslash
    rfl
  · subst hb
    rfl
  · subst ht
    rfl
  · subst hn
    rfl
  · subst hf
    rfl
  · subst hr
    rfl
  · have hhigh := hexValue_hexDigit (c.toNat / 16) (by omega)
    have hlow := hexValue_hexDigit (c.toNat % 16) (by omega)
    have hzero : hexValue '0' = some 0 := by decide
    have hcode : ((0 * 16 + 0) * 16 + c.toNat / 16) * 16 + c.toNat % 16 = c.toNat := by omega
    have hread : readCode ('0' :: '0' :: hexDigit (c.toNat / 16) :: hexDigit (c.toNat % 16) :: rest) =
        some (c, rest) := by
      simp only [readCode, hzero, hhigh, hlow, Option.bind_eq_bind, Option.bind_some, hcode]
      rw [if_neg (by omega), Char.ofNat_toNat]
    have hescape : readEscape
        ('u' :: '0' :: '0' :: hexDigit (c.toNat / 16) :: hexDigit (c.toNat % 16) :: rest) =
          some (c, rest) := hread
    simp only [List.cons_append, List.nil_append, readChars, hescape]
    rfl
  · simp only [List.cons_append, List.nil_append, readChars, if_neg hquote, if_neg hslash,
      if_neg hcontrol]

theorem readChars_escaped (cs rest : List Char) {fuel : Nat} (hfuel : cs.length < fuel) :
    readChars fuel (cs.flatMap escapeChar ++ '"' :: rest) = some (cs, rest) := by
  induction cs generalizing fuel with
  | nil =>
    obtain ⟨fuel, rfl⟩ : ∃ n, fuel = n + 1 := ⟨fuel - 1, by rw [List.length_nil] at hfuel; omega⟩
    rfl
  | cons c cs ih =>
    rw [List.length_cons] at hfuel
    obtain ⟨fuel, rfl⟩ : ∃ n, fuel = n + 1 := ⟨fuel - 1, by omega⟩
    rw [List.flatMap_cons, List.append_assoc, readChars_escapeChar, ih (by omega)]
    rfl

theorem length_le_escaped (cs : List Char) : cs.length ≤ (cs.flatMap escapeChar).length := by
  induction cs with
  | nil => exact Nat.zero_le _
  | cons c cs ih =>
    have hone : 1 ≤ (escapeChar c).length := by
      unfold escapeChar
      split_ifs <;> simp
    rw [List.flatMap_cons, List.length_append, List.length_cons]
    omega

theorem readString_escape (s : String) (rest : List Char) :
    readString (escapeJsonString s ++ rest) = some (s, rest) := by
  have hfuel : s.toList.length < (s.toList.flatMap escapeChar ++ '"' :: rest).length := by
    have hle := length_le_escaped s.toList
    rw [List.length_append, List.length_cons]
    omega
  have hread := readChars_escaped s.toList rest hfuel
  rw [escapeJsonString, List.cons_append, List.append_assoc, List.singleton_append, readString,
    hread, Option.map_some]
  exact congrArg (fun t => some (t, rest)) String.ofList_toList

/-- The integers and the strings of JSON texts. -/
def lexis : Json.Lexis Number where
  written n := ∃ i h, n = .integer i h
  number
    | .integer i _ => integerText i
    | .float _ => []
  readNumber := readNumber
  string := escapeJsonString
  readString := readString
  number_head := by
    rintro _ ⟨i, h, rfl⟩
    obtain ⟨c, rest, hdigits, hc⟩ := toDigits_head i.natAbs
    by_cases hneg : i < 0
    · exact ⟨_, _, if_pos hneg, .inl rfl⟩
    · exact ⟨c, rest, (if_neg hneg).trans hdigits, .inr hc⟩
  string_head s := ⟨_, rfl⟩
  read_number := by
    rintro _ rest ⟨i, h, rfl⟩ hrest
    exact readNumber_integerText h hrest
  read_string := readString_escape

/-! ## What is written -/

namespace Number

/-- An integral f64 in the safe range is written as the integer. -/
def normal : Number → Number
  | float f =>
    match f.integral? with
    | some i =>
      if h : i.natAbs ≤ maxSafeInteger then
        integer i (by unfold maxSafeInteger at h; omega)
      else float f
    | none => float f
  | n => n

theorem normal_safe {f : F64} {i : Int} (hi : f.integral? = some i) (hsafe : i.natAbs ≤ maxSafeInteger) :
    ∃ h, (float f).normal = integer i h := by
  have hrange : -9223372036854775808 ≤ i ∧ i < 18446744073709551616 := by
    unfold maxSafeInteger at hsafe
    omega
  exact ⟨hrange, by simp only [normal, hi, dif_pos hsafe]⟩

theorem normal_unsafe {f : F64} (hf : ∀ i, f.integral? = some i → ¬i.natAbs ≤ maxSafeInteger) :
    (float f).normal = float f := by
  cases hi : f.integral? with
  | none => simp only [normal, hi]
  | some i => simp only [normal, hi, dif_neg (hf i hi)]

theorem normal_normal (n : Number) : n.normal.normal = n.normal := by
  cases n with
  | integer i h => rfl
  | float f =>
    by_cases hsafe : ∃ i, f.integral? = some i ∧ i.natAbs ≤ maxSafeInteger
    · obtain ⟨i, hi, hsafe⟩ := hsafe
      obtain ⟨h, hnormal⟩ := normal_safe hi hsafe
      rw [hnormal]
      rfl
    · have hfar := normal_unsafe (f := f) fun i hi h => hsafe ⟨i, hi, h⟩
      rw [hfar, hfar]

end Number

theorem canonicalNumber_ok {display : Number → String} {n : Number} {text : List Char} :
    canonicalNumber display n = .ok text ↔
      lexis.written n.normal ∧ text = lexis.number n.normal := by
  cases n with
  | integer i h =>
    have hnumber : canonicalNumber display (.integer i h) = .ok (integerText i) := by
      unfold canonicalNumber Number.asI64 Number.asU64
      dsimp only
      split
      · rename_i heq
        split at heq
        · cases heq
          rfl
        · cases heq
      · split
        · rename_i heq
          split at heq
          · rename_i hpos
            cases heq
            rw [Int.toNat_of_nonneg hpos]
          · cases heq
        · rename_i hsmall _ hneg
          simp only [ite_eq_right_iff, reduceCtorEq, imp_false, not_lt, not_le] at hsmall hneg
          omega
    rw [hnumber, Except.ok.injEq]
    exact ⟨fun heq => ⟨⟨i, h, rfl⟩, heq.symm⟩, fun heq => heq.2.symm⟩
  | float f =>
    have hnumber : canonicalNumber display (.float f) = .ok text ↔
        ∃ i, f.integral? = some i ∧ i.natAbs ≤ maxSafeInteger ∧ text = integerText i := by
      unfold canonicalNumber Number.asI64 Number.asU64 Number.asF64
      dsimp only
      split
      · rename_i hinfinite
        refine iff_of_false nofun ?_
        rintro ⟨i, hi, -⟩
        cases f <;> simp_all [F64.isFinite, F64.integral?]
      · split
        · rename_i i hi
          split
          · rename_i hsafe
            rw [Except.ok.injEq]
            exact ⟨fun heq => ⟨i, hi, hsafe, heq.symm⟩, by
              rintro ⟨_, heq, -, rfl⟩
              rw [Option.some.inj (hi.symm.trans heq)]⟩
          · rename_i hfar
            refine iff_of_false nofun ?_
            rintro ⟨_, heq, hsafe, -⟩
            rw [← Option.some.inj (hi.symm.trans heq)] at hsafe
            exact hfar hsafe
        · rename_i hnone
          refine iff_of_false nofun ?_
          rintro ⟨i, hi, -⟩
          rw [hnone] at hi
          cases hi
    rw [hnumber]
    constructor
    · rintro ⟨i, hi, hsafe, rfl⟩
      obtain ⟨h, hnormal⟩ := Number.normal_safe hi hsafe
      rw [hnormal]
      exact ⟨⟨i, h, rfl⟩, rfl⟩
    · rintro ⟨⟨i, h, hwritten⟩, rfl⟩
      by_cases hsafe : ∃ i, f.integral? = some i ∧ i.natAbs ≤ maxSafeInteger
      · obtain ⟨i, hi, hsafe⟩ := hsafe
        obtain ⟨h, hnormal⟩ := Number.normal_safe hi hsafe
        exact ⟨i, hi, hsafe, by rw [hnormal]; rfl⟩
      · rw [Number.normal_unsafe fun i hi h => hsafe ⟨i, hi, h⟩] at hwritten
        cases hwritten

theorem mapM_ok_iff {α β ε : Type} {f : α → Except ε β} {P : α → Prop} {g : α → β} {xs : List α}
    (h : ∀ x ∈ xs, ∀ b, f x = .ok b ↔ P x ∧ b = g x) {ys : List β} :
    xs.mapM f = .ok ys ↔ (∀ x ∈ xs, P x) ∧ ys = xs.map g := by
  induction xs generalizing ys with
  | nil =>
    rw [List.mapM_nil, List.map_nil]
    simp [pure, Except.pure, eq_comm]
  | cons x xs ih =>
    have hrest := @ih fun x hx => h x (List.mem_cons_of_mem _ hx)
    rw [List.mapM_cons, List.forall_mem_cons, List.map_cons]
    constructor
    · intro hok
      cases hx : f x with
      | error e => simp [hx, bind, Except.bind] at hok
      | ok b =>
        cases hxs : xs.mapM f with
        | error e => simp [hx, hxs, bind, Except.bind] at hok
        | ok bs =>
          simp only [hx, hxs, bind, Except.bind, pure, Except.pure, Except.ok.injEq] at hok
          obtain ⟨hP, rfl⟩ := (h x List.mem_cons_self b).mp hx
          obtain ⟨hPs, rfl⟩ := hrest.mp hxs
          exact ⟨⟨hP, hPs⟩, hok.symm⟩
    · rintro ⟨⟨hP, hPs⟩, rfl⟩
      have hx := (h x List.mem_cons_self _).mpr ⟨hP, rfl⟩
      have hxs := hrest.mpr ⟨hPs, rfl⟩
      simp [hx, hxs, bind, Except.bind, pure, Except.pure]

/-- No null, and only numbers that are written as integers. -/
def Plain (v : Value) : Prop :=
  v.All False (fun n => lexis.written n.normal) fun _ => True

/-- The value that the canonical text is the plain text of. -/
def canonicalForm (v : Value) : Value := v.ordered Number.normal encodeUtf16

theorem writeItems_eq {display : Number → String} {items : List Value} :
    writeItems display items = items.map (writeCanonical display) := by
  induction items with
  | nil => rfl
  | cons v rest ih => rw [writeItems, ih, List.map_cons]

theorem writeFields_eq {display : Number → String} {fields : List (String × Value)} :
    writeFields display fields = fields.map fun f => (f.1, writeCanonical display f.2) := by
  induction fields with
  | nil => rfl
  | cons f rest ih => rw [writeFields, ih, List.map_cons]

/-- An entry of an object, written when its value is. -/
def writeEntry (entry : String × Except WalletError (List Char)) :
    Except WalletError (List Char) := do
  let text ← entry.2
  return escapeJsonString entry.1 ++ ':' :: text

/-- Canonical writing succeeds on plain values, and writes the ordered form plainly. -/
theorem writeCanonical_ok {display : Number → String} {v : Value} {text : List Char} :
    writeCanonical display v = .ok text ↔ Plain v ∧ text = lexis.text (canonicalForm v) := by
  induction v using Json.byParts generalizing text with
  | null => exact iff_of_false (by rintro ⟨⟩) fun h => h.1.elim
  | bool b =>
    rw [writeCanonical, Except.ok.injEq]
    cases b <;> exact ⟨fun h => ⟨trivial, h.symm⟩, fun h => h.2.symm⟩
  | number n => exact canonicalNumber_ok
  | string s =>
    rw [writeCanonical, Except.ok.injEq]
    exact ⟨fun h => ⟨trivial, h.symm⟩, fun h => h.2.symm⟩
  | array items ih =>
    have hmapM : ∀ texts, (items.map (writeCanonical display)).mapM id = .ok texts ↔
        (∀ v ∈ items, Plain v) ∧ texts = items.map fun v => lexis.text (canonicalForm v) := by
      intro texts
      rw [List.mapM_map]
      exact mapM_ok_iff fun v hv text => ih v hv
    have htext : lexis.text (canonicalForm (.array items)) =
        '[' :: (Json.separated (items.map fun v => lexis.text (canonicalForm v)) ++ [']']) := by
      rw [canonicalForm, Json.ordered, Json.Lexis.text, Json.Lexis.textItems_eq, Json.orderedItems_eq,
        List.map_map]
      rfl
    rw [writeCanonical, writeItems_eq, Plain, Json.all_array, htext]
    cases hitems : (items.map (writeCanonical display)).mapM id with
    | error e =>
      refine iff_of_false (by rintro ⟨⟩) fun h => ?_
      rw [(hmapM _).mpr ⟨h.1, rfl⟩] at hitems
      cases hitems
    | ok texts =>
      obtain ⟨hplain, rfl⟩ := (hmapM texts).mp hitems
      exact ⟨fun h => ⟨hplain, (Except.ok.inj h).symm⟩, fun h => congrArg Except.ok h.2.symm⟩
  | object fields ih =>
    have hentries : (fields.map fun f => (f.1, writeCanonical display f.2)).insertionSort
        (fun f g => (jsStringCmp f.1 g.1).isLE) =
          (fields.insertionSort (Json.Before encodeUtf16)).map fun f =>
            (f.1, writeCanonical display f.2) :=
      (List.map_insertionSort _ _ _ _ fun f _ g _ => jsStringCmp_isLE.symm).symm
    have hform : canonicalForm (.object fields) =
        .object ((fields.insertionSort (Json.Before encodeUtf16)).map fun f =>
          (f.1, canonicalForm f.2)) := by
      have hsort := List.map_insertionSort (Json.Before encodeUtf16) (Json.Before encodeUtf16)
        (fun f => (f.1, canonicalForm f.2)) fields fun f _ g _ => Iff.rfl
      rw [canonicalForm, Json.ordered, Json.orderedFields_eq]
      exact congrArg Json.object hsort.symm
    have hmapM : ∀ texts, ((fields.insertionSort (Json.Before encodeUtf16)).map fun f =>
        (f.1, writeCanonical display f.2)).mapM writeEntry = .ok texts ↔
        (∀ f ∈ fields, Plain f.2) ∧ texts = (fields.insertionSort (Json.Before encodeUtf16)).map
          fun f => lexis.field f.1 (lexis.text (canonicalForm f.2)) := by
      intro texts
      rw [List.mapM_map]
      have hone : ∀ f ∈ fields.insertionSort (Json.Before encodeUtf16), ∀ text,
          writeEntry (f.1, writeCanonical display f.2) = .ok text ↔
            Plain f.2 ∧ text = lexis.field f.1 (lexis.text (canonicalForm f.2)) := ?_
      · have hall := @mapM_ok_iff _ _ _ _ _ _ _ hone texts
        simp only [List.mem_insertionSort] at hall
        exact hall
      · intro f hf text
        rw [List.mem_insertionSort] at hf
        unfold writeEntry
        dsimp only
        cases hwrite : writeCanonical display f.2 with
        | error e =>
          refine iff_of_false (by rintro ⟨⟩) fun h => ?_
          rw [(ih f hf).mpr ⟨h.1, rfl⟩] at hwrite
          cases hwrite
        | ok t =>
          obtain ⟨hplain, rfl⟩ := (ih f hf).mp hwrite
          exact ⟨fun h => ⟨hplain, (Except.ok.inj h).symm⟩, fun h => congrArg Except.ok h.2.symm⟩
    have hobject : writeCanonical display (.object fields) = (do
        let texts ← ((writeFields display fields).insertionSort
          fun f g => (jsStringCmp f.1 g.1).isLE).mapM writeEntry
        return '{' :: (Json.separated texts ++ ['}'])) := by
      rw [writeCanonical]
      rfl
    rw [hobject, writeFields_eq, Plain, Json.all_object, hform, Json.Lexis.text,
      Json.Lexis.textFields_eq, List.map_map, true_and, hentries]
    cases hfields : ((fields.insertionSort (Json.Before encodeUtf16)).map fun f =>
        (f.1, writeCanonical display f.2)).mapM writeEntry with
    | error e =>
      refine iff_of_false (by rintro ⟨⟩) fun h => ?_
      rw [(hmapM _).mpr ⟨h.1, rfl⟩] at hfields
      cases hfields
    | ok texts =>
      obtain ⟨hplain, rfl⟩ := (hmapM texts).mp hfields
      exact ⟨fun h => ⟨hplain, (Except.ok.inj h).symm⟩, fun h => congrArg Except.ok h.2.symm⟩

/-! ## One text for one value -/

/-- The same value up to the order of keys and the way an integer is kept. -/
def Same (v w : Value) : Prop := v.Alike (fun n m => n.normal = m.normal) w

section Canonicalize

variable {display : Number → String} {v w : Value} {text text' : String}

theorem canonicalize_ok :
    canonicalize display v = .ok text ↔ Plain v ∧ text.toList = lexis.text (canonicalForm v) := by
  have hwrite : ∀ chars, writeCanonical display v = .ok chars ↔
      Plain v ∧ chars = lexis.text (canonicalForm v) := fun _ => writeCanonical_ok
  unfold canonicalize
  cases hchars : writeCanonical display v with
  | error e =>
    refine iff_of_false nofun fun h => ?_
    rw [(hwrite _).mpr ⟨h.1, rfl⟩] at hchars
    cases hchars
  | ok chars =>
    obtain ⟨hplain, rfl⟩ := (hwrite chars).mp hchars
    constructor
    · intro h
      obtain rfl := Except.ok.inj h
      exact ⟨hplain, String.toList_ofList⟩
    · rintro ⟨-, htext⟩
      rw [← htext]
      exact congrArg Except.ok String.ofList_toList

theorem same_iff (hv : v.Distinct) (hw : w.Distinct) : Same v w ↔ canonicalForm v = canonicalForm w :=
  Json.alike_iff_ordered encodeUtf16_injective (fun _ _ => Iff.rfl) hv hw

theorem plain_form (h : Plain v) : (canonicalForm v).All False lexis.written fun _ => True :=
  Json.all_ordered_iff.mpr h

theorem written_form (h : Plain v) : (canonicalForm v).All True lexis.written fun _ => True :=
  (plain_form h).mono False.elim (fun _ h => h) fun _ h => h

/-- In the canonical form the keys of every object ascend by their UTF-16 code units. -/
def Ascending (v : Value) : Prop :=
  v.All True (fun _ => True) fun names => (names.map encodeUtf16).Pairwise (· < ·)

theorem ascending_form (hv : v.Distinct) : Ascending (canonicalForm v) :=
  Json.all_ordered encodeUtf16_injective hv

theorem Ascending.distinct (h : Ascending v) : v.Distinct :=
  h.mono (fun h => h) (fun _ h => h) fun _ hnames =>
    List.Nodup.of_map encodeUtf16 (hnames.imp ne_of_lt)

theorem same_form (hv : v.Distinct) : Same v (canonicalForm v) :=
  (same_iff hv (ascending_form hv).distinct).mpr (Json.ordered_ordered Number.normal_normal).symm

theorem Same.canonicalize_eq (hsame : Same v w) (hv : v.Distinct) (hw : w.Distinct)
    (h : canonicalize display v = .ok text) : canonicalize display w = .ok text := by
  rw [canonicalize_ok] at h ⊢
  have hform := (same_iff hv hw).mp hsame
  refine ⟨?_, hform ▸ h.2⟩
  have hplain := plain_form h.1
  rw [hform] at hplain
  exact Json.all_ordered_iff.mp hplain

/-- Values have one canonical text exactly when they are the same up to the order of keys and the way
an integer is kept, however deep they are. -/
theorem canonical_text_iff (hv : v.Distinct) (hw : w.Distinct)
    (h : canonicalize display v = .ok text)
    (h' : canonicalize display w = .ok text') : text = text' ↔ Same v w := by
  obtain ⟨hplain, htext⟩ := canonicalize_ok.mp h
  obtain ⟨hplain', htext'⟩ := canonicalize_ok.mp h'
  rw [same_iff hv hw, ← String.toList_inj, htext, htext']
  exact ⟨Json.Lexis.text_inj (written_form hplain) (written_form hplain'), congrArg lexis.text⟩

/-- An account with an amount, as text and numbers of a wallet have it. -/
def account : Value :=
  .object [("name", .string "caf\u00e9 \"1\""), ("amount", .array [.number (.integer 5 (by decide))])]

/-- The same account read from elsewhere: the keys in another order, the amount an f64. -/
def accountElsewhere : Value :=
  .object [("amount", .array [.number (.float (.finite false 20 (-2)))]), ("name", .string "caf\u00e9 \"1\"")]

theorem account_distinct : account.Distinct ∧ accountElsewhere.Distinct := by
  constructor
  all_goals
    refine Json.all_object.mpr ⟨by decide, ?_⟩
    simp [Json.All, Json.AllItems]

theorem account_text :
    (canonicalize (fun _ => "") account).toOption =
        some "\x7b\"amount\":[5],\"name\":\"caf\u00e9 \\\"1\\\"\"\x7d" ∧
      (canonicalize (fun _ => "") accountElsewhere).toOption =
        some "\x7b\"amount\":[5],\"name\":\"caf\u00e9 \\\"1\\\"\"\x7d" := by
  decide +kernel

theorem canonical_text_iff_account : Same account accountElsewhere :=
  (canonical_text_iff account_distinct.1 account_distinct.2 (toOption_eq_some.mp account_text.1)
    (toOption_eq_some.mp account_text.2)).mp rfl

/-! ## Reading it back -/

/-- The parser reads every JSON text of integers that is nested at most 127 deep, as its documentation
says; the order in which it keeps the keys is its own. -/
def SerdeJson.Reads (serde : SerdeJson) : Prop :=
  ∀ (text : String) (v : Value), lexis.read 127 text.toList = some v → v.Distinct →
    ∃ v', serde.fromStr text = .ok v' ∧ v'.Distinct ∧ v.Alike (· = ·) v'

theorem SerdeJson.Reads.canonical {serde : SerdeJson} (hserde : serde.Reads) (hv : v.Distinct)
    (hdepth : v.depth ≤ 127) (h : canonicalize display v = .ok text) :
    ∃ v', serde.fromStr text = .ok v' ∧ v'.Distinct ∧ Same v v' := by
  obtain ⟨hplain, htext⟩ := canonicalize_ok.mp h
  have hform := (ascending_form hv).distinct
  have hread : lexis.read 127 text.toList = some (canonicalForm v) := by
    rw [htext]
    exact Json.Lexis.read_text (written_form hplain) (Json.depth_ordered_le.mpr hdepth)
  obtain ⟨v', hparsed, hv', halike⟩ := hserde text _ hread hform
  have hsame : Same (canonicalForm v) v' := halike.imp fun n m h => congrArg Number.normal h
  refine ⟨v', hparsed, hv', (same_iff hv hv').mpr ?_⟩
  rw [← (same_iff hform hv').mp hsame]
  exact (same_iff hv hform).mp (same_form hv)

/-- The canonical text of a value nested at most 127 deep is read back to the same value, which has this
text again; it is the plain text of a value whose keys ascend. -/
theorem canonical_round_trip {serde : SerdeJson} (hserde : serde.Reads) (hv : v.Distinct)
    (hdepth : v.depth ≤ 127) (h : canonicalize serde.display v = .ok text) :
    (∃ v', serde.fromStr text = .ok v' ∧ Same v v' ∧
      canonicalize serde.display v' = .ok text) ∧
    ∃ u, text.toList = lexis.text u ∧ Ascending u ∧ Same v u := by
  obtain ⟨v', hparsed, hv', hsame⟩ := hserde.canonical hv hdepth h
  exact ⟨⟨v', hparsed, hsame, hsame.canonicalize_eq hv hv' h⟩,
    canonicalForm v, (canonicalize_ok.mp h).2, ascending_form hv, same_form hv⟩

/-- A parser that reads these texts and no others. -/
def plainSerde : SerdeJson where
  display _ := ""
  fromStr text :=
    match lexis.read 127 text.toList with
    | some v => .ok v
    | none => .error "expected a value of integers"

theorem plainSerde_reads : plainSerde.Reads := by
  intro text v hread hv
  have hordered : v.ordered id encodeUtf16 = v.ordered id encodeUtf16 := rfl
  have halike : v.Alike (· = ·) v :=
    (Json.alike_iff_ordered encodeUtf16_injective (fun _ _ => Iff.rfl) hv hv).mpr hordered
  exact ⟨v, by simp only [plainSerde, hread], hv, halike⟩

theorem canonical_round_trip_account :
    ∃ v', plainSerde.fromStr "\x7b\"amount\":[5],\"name\":\"caf\u00e9 \\\"1\\\"\"\x7d" = .ok v' ∧ Same account v' := by
  obtain ⟨⟨v', hparsed, hsame, -⟩, -⟩ := canonical_round_trip plainSerde_reads account_distinct.1
    (by decide) (toOption_eq_some.mp account_text.1)
  exact ⟨v', hparsed, hsame⟩

end Canonicalize

end WalletToolbox.Portable
