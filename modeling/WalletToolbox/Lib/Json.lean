import Mathlib.Data.List.Nodup

/-! # JSON values, their compact text and their reading

A value is written without blanks, and what is written is read back.
The texts of numbers and strings are a parameter that comes with its reader; the reader of values
has a limit on the nesting, as such readers have. -/

namespace WalletToolbox.Lib

inductive Json (N : Type) where
  | null
  | bool (b : Bool)
  | number (n : N)
  | string (s : String)
  | array (items : List (Json N))
  | object (fields : List (String × Json N))

namespace Json

variable {N : Type}

@[induction_eliminator]
theorem byParts {motive : Json N → Prop} (null : motive .null) (bool : ∀ b, motive (.bool b))
    (number : ∀ n, motive (.number n)) (string : ∀ s, motive (.string s))
    (array : ∀ items, (∀ v ∈ items, motive v) → motive (.array items))
    (object : ∀ fields, (∀ f ∈ fields, motive f.2) → motive (.object fields)) (v : Json N) :
    motive v := by
  refine @Json.rec N motive (fun items => ∀ v ∈ items, motive v)
    (fun fields => ∀ f ∈ fields, motive f.2) (fun f => motive f.2)
    null bool number string array object nofun ?_ nofun ?_ ?_ v
  · intro v rest hv hrest w hw
    rcases List.mem_cons.mp hw with rfl | hw
    · exact hv
    · exact hrest w hw
  · intro f rest hf hrest g hg
    rcases List.mem_cons.mp hg with rfl | hg
    · exact hf
    · exact hrest g hg
  · exact fun _ _ h => h

/-! ## Nesting and invariants -/

mutual

def depth : Json N → Nat
  | .array items => depthItems items + 1
  | .object fields => depthFields fields + 1
  | _ => 0

def depthItems : List (Json N) → Nat
  | [] => 0
  | v :: rest => max v.depth (depthItems rest)

def depthFields : List (String × Json N) → Nat
  | [] => 0
  | (_, v) :: rest => max v.depth (depthFields rest)

end

theorem depthItems_le {items : List (Json N)} {d : Nat} :
    depthItems items ≤ d ↔ ∀ v ∈ items, v.depth ≤ d := by
  induction items with
  | nil => simp [depthItems]
  | cons v rest ih => rw [depthItems, Nat.max_le, ih, List.forall_mem_cons]

theorem depthFields_le {fields : List (String × Json N)} {d : Nat} :
    depthFields fields ≤ d ↔ ∀ f ∈ fields, f.2.depth ≤ d := by
  induction fields with
  | nil => simp [depthFields]
  | cons f rest ih => rw [depthFields, Nat.max_le, ih, List.forall_mem_cons]

mutual

/-- What holds of every number of a value, of the keys of every object, and of its nulls. -/
def All (nulls : Prop) (numbers : N → Prop) (keys : List String → Prop) : Json N → Prop
  | .null => nulls
  | .number n => numbers n
  | .array items => AllItems nulls numbers keys items
  | .object fields => keys (fields.map (·.1)) ∧ AllFields nulls numbers keys fields
  | _ => True

def AllItems (nulls : Prop) (numbers : N → Prop) (keys : List String → Prop) :
    List (Json N) → Prop
  | [] => True
  | v :: rest => v.All nulls numbers keys ∧ AllItems nulls numbers keys rest

def AllFields (nulls : Prop) (numbers : N → Prop) (keys : List String → Prop) :
    List (String × Json N) → Prop
  | [] => True
  | (_, v) :: rest => v.All nulls numbers keys ∧ AllFields nulls numbers keys rest

end

section All

variable {nulls nulls' : Prop} {numbers numbers' : N → Prop} {keys keys' : List String → Prop}

theorem all_array {items : List (Json N)} :
    (array items).All nulls numbers keys ↔ ∀ v ∈ items, v.All nulls numbers keys := by
  rw [All]
  induction items with
  | nil => simp [AllItems]
  | cons v rest ih => rw [AllItems, ih, List.forall_mem_cons]

theorem all_object {fields : List (String × Json N)} :
    (object fields).All nulls numbers keys ↔
      keys (fields.map (·.1)) ∧ ∀ f ∈ fields, f.2.All nulls numbers keys := by
  have hfields : AllFields nulls numbers keys fields ↔ ∀ f ∈ fields, f.2.All nulls numbers keys := by
    induction fields with
    | nil => simp [AllFields]
    | cons f rest ih => rw [AllFields, ih, List.forall_mem_cons]
  rw [All, hfields]

theorem All.mono {v : Json N} (h : v.All nulls numbers keys) (hnulls : nulls → nulls')
    (hnumbers : ∀ n, numbers n → numbers' n) (hkeys : ∀ ks, keys ks → keys' ks) :
    v.All nulls' numbers' keys' := by
  induction v with
  | null => exact hnulls h
  | bool b => trivial
  | number n => exact hnumbers n h
  | string s => trivial
  | array items ih =>
    rw [all_array] at h ⊢
    exact fun v hv => ih v hv (h v hv)
  | object fields ih =>
    rw [all_object] at h ⊢
    exact ⟨hkeys _ h.1, fun f hf => ih f hf (h.2 f hf)⟩

end All

/-- The fields of an object have different names. -/
def Distinct (v : Json N) : Prop :=
  v.All True (fun _ => True) List.Nodup

/-! ## Texts -/

/-- Where a number ends: at the end of the text or before what separates values. -/
def Ended (rest : List Char) : Prop :=
  ∀ c ∈ rest.head?, c = ',' ∨ c = ']' ∨ c = '}'

theorem ended_nil : Ended [] := nofun

theorem ended_cons {c : Char} {rest : List Char} (h : c = ',' ∨ c = ']' ∨ c = '}') :
    Ended (c :: rest) := by
  intro d hd
  obtain rfl := Option.some.inj hd
  exact h

/-- How numbers and strings are written and read. Not every number has a text. -/
structure Lexis (N : Type) where
  written : N → Prop
  number : N → List Char
  readNumber : List Char → Option (N × List Char)
  string : String → List Char
  readString : List Char → Option (String × List Char)
  number_head : ∀ n, written n → ∃ c rest, number n = c :: rest ∧ (c = '-' ∨ c.isDigit = true)
  string_head : ∀ s, ∃ rest, string s = '"' :: rest
  read_number : ∀ n rest, written n → Ended rest → readNumber (number n ++ rest) = some (n, rest)
  read_string : ∀ s rest, readString (string s ++ rest) = some (s, rest)

/-- Texts with commas between them. -/
def separated : List (List Char) → List Char
  | [] => []
  | [text] => text
  | text :: rest => text ++ ',' :: separated rest

theorem separated_cons_cons {text text' : List Char} {rest : List (List Char)} :
    separated (text :: text' :: rest) = text ++ ',' :: separated (text' :: rest) := rfl

theorem length_le_separated {texts : List (List Char)} (h : ∀ text ∈ texts, text ≠ []) :
    texts.length ≤ (separated texts).length := by
  induction texts with
  | nil => exact Nat.zero_le _
  | cons text rest ih =>
    have hone := List.length_pos_of_ne_nil (h text List.mem_cons_self)
    have hrest := ih fun t ht => h t (List.mem_cons_of_mem _ ht)
    cases rest with
    | nil => exact hone
    | cons text' rest =>
      rw [separated_cons_cons]
      simp only [List.length_append, List.length_cons] at hrest ⊢
      omega

namespace Lexis

variable (lexis : Lexis N)

/-- A field: its name, a colon, its value. -/
def field (name : String) (value : List Char) : List Char :=
  lexis.string name ++ ':' :: value

mutual

def text : Json N → List Char
  | .null => ['n', 'u', 'l', 'l']
  | .bool true => ['t', 'r', 'u', 'e']
  | .bool false => ['f', 'a', 'l', 's', 'e']
  | .number n => lexis.number n
  | .string s => lexis.string s
  | .array items => '[' :: (separated (textItems items) ++ [']'])
  | .object fields => '{' :: (separated (textFields fields) ++ ['}'])

def textItems : List (Json N) → List (List Char)
  | [] => []
  | v :: rest => text v :: textItems rest

def textFields : List (String × Json N) → List (List Char)
  | [] => []
  | (name, v) :: rest => lexis.field name (text v) :: textFields rest

end

theorem textItems_eq {items : List (Json N)} : lexis.textItems items = items.map lexis.text := by
  induction items with
  | nil => rfl
  | cons v rest ih => rw [textItems, ih, List.map_cons]

theorem textFields_eq {fields : List (String × Json N)} :
    lexis.textFields fields = fields.map fun f => lexis.field f.1 (lexis.text f.2) := by
  induction fields with
  | nil => rfl
  | cons f rest ih => rw [textFields, ih, List.map_cons]

/-! ## Reading -/

/-- The items up to the closing bracket, at least one. -/
def readItems {α : Type} (item : List Char → Option (α × List Char)) (close : Char) :
    Nat → List Char → Option (List α × List Char)
  | 0, _ => none
  | fuel + 1, chars =>
    match item chars with
    | none => none
    | some (_, []) => none
    | some (x, c :: rest) =>
      if c = close then some ([x], rest)
      else if c = ',' then (readItems item close fuel rest).map fun (xs, rest) => (x :: xs, rest)
      else none

def readBlock {α : Type} (item : List Char → Option (α × List Char)) (close : Char) :
    List Char → Option (List α × List Char)
  | [] => none
  | c :: rest =>
    if c = close then some ([], rest) else readItems item close (c :: rest).length (c :: rest)

def readField (value : List Char → Option (Json N × List Char)) (chars : List Char) :
    Option ((String × Json N) × List Char) :=
  match lexis.readString chars with
  | some (name, ':' :: rest) => (value rest).map fun (v, rest) => ((name, v), rest)
  | _ => none

def readScalar : List Char → Option (Json N × List Char)
  | 'n' :: 'u' :: 'l' :: 'l' :: rest => some (.null, rest)
  | 't' :: 'r' :: 'u' :: 'e' :: rest => some (.bool true, rest)
  | 'f' :: 'a' :: 'l' :: 's' :: 'e' :: rest => some (.bool false, rest)
  | '"' :: rest => (lexis.readString ('"' :: rest)).map fun (s, rest) => (.string s, rest)
  | chars => (lexis.readNumber chars).map fun (n, rest) => (.number n, rest)

/-- A value nested within the limit. -/
def readValue : Nat → List Char → Option (Json N × List Char)
  | 0, chars => lexis.readScalar chars
  | limit + 1, chars =>
    match chars with
    | '[' :: rest => (readBlock (readValue limit) ']' rest).map fun (vs, rest) => (.array vs, rest)
    | '{' :: rest =>
      (readBlock (lexis.readField (readValue limit)) '}' rest).map fun (fs, rest) =>
        (.object fs, rest)
    | chars => lexis.readScalar chars

/-- The value that is the whole text. -/
def read (limit : Nat) (chars : List Char) : Option (Json N) :=
  match lexis.readValue limit chars with
  | some (v, []) => some v
  | _ => none

/-! ## What is written is read -/

section Blocks

variable {α : Type} {item : List Char → Option (α × List Char)} {close : Char}
  {write : α → List Char} {xs : List α} {rest : List Char}

theorem readItems_separated (hclose : close = ']' ∨ close = '}')
    (hitem : ∀ x ∈ xs, ∀ rest, Ended rest → item (write x ++ rest) = some (x, rest))
    (hne : xs ≠ []) {fuel : Nat} (hfuel : xs.length ≤ fuel) :
    readItems item close fuel (separated (xs.map write) ++ close :: rest) = some (xs, rest) := by
  induction xs generalizing fuel with
  | nil => exact absurd rfl hne
  | cons x xs ih =>
    obtain ⟨fuel, rfl⟩ : ∃ n, fuel = n + 1 := ⟨fuel - 1, by rw [List.length_cons] at hfuel; omega⟩
    have hx := hitem x List.mem_cons_self
    rw [readItems]
    cases xs with
    | nil =>
      have hfirst : item (write x ++ close :: rest) = some (x, close :: rest) :=
        hx _ (ended_cons (.inr hclose))
      simp only [List.map_cons, List.map_nil, separated, hfirst, if_pos]
    | cons y ys =>
      have hfirst : item (write x ++ ',' :: (separated ((y :: ys).map write) ++ close :: rest)) =
          some (x, ',' :: (separated ((y :: ys).map write) ++ close :: rest)) :=
        hx _ (ended_cons (.inl rfl))
      have hcomma : ',' ≠ close := by rcases hclose with rfl | rfl <;> decide
      have hrest := @ih (fun y hy => hitem y (List.mem_cons_of_mem _ hy)) nofun fuel
        (by simpa using hfuel)
      rw [List.map_cons, List.map_cons, separated_cons_cons, ← List.map_cons, List.append_assoc,
        List.cons_append, hfirst]
      simp only [if_neg hcomma, if_pos, hrest, Option.map_some]

theorem readBlock_separated (hclose : close = ']' ∨ close = '}')
    (hitem : ∀ x ∈ xs, ∀ rest, Ended rest → item (write x ++ rest) = some (x, rest))
    (hhead : ∀ x ∈ xs, ∃ c chars, write x = c :: chars ∧ c ≠ close) :
    readBlock item close (separated (xs.map write) ++ close :: rest) = some (xs, rest) := by
  cases xs with
  | nil =>
    rw [List.map_nil, separated, List.nil_append, readBlock, if_pos rfl]
  | cons x xs =>
    have hread : readItems item close (separated ((x :: xs).map write) ++ close :: rest).length
        (separated ((x :: xs).map write) ++ close :: rest) = some (x :: xs, rest) :=
      readItems_separated hclose hitem nofun ?_
    · obtain ⟨c, chars, hx, hc⟩ := hhead x List.mem_cons_self
      have hchars : ∃ chars', separated ((x :: xs).map write) ++ close :: rest = c :: chars' := by
        cases xs with
        | nil => exact ⟨chars ++ close :: rest, by simp [separated, hx]⟩
        | cons y ys => exact ⟨_, by rw [List.map_cons, List.map_cons, separated_cons_cons, hx]; rfl⟩
      obtain ⟨chars', hchars⟩ := hchars
      rw [hchars] at hread ⊢
      rw [readBlock, if_neg hc, hread]
    · have hne : ∀ text ∈ (x :: xs).map write, text ≠ [] := by
        intro text htext
        obtain ⟨y, hy, rfl⟩ := List.mem_map.mp htext
        obtain ⟨c, chars, heq, -⟩ := hhead y hy
        rw [heq]
        nofun
      have hle := length_le_separated hne
      rw [List.length_map] at hle
      rw [List.length_append]
      omega

end Blocks

variable {lexis}

theorem text_head {v : Json N} (hwritten : v.All True lexis.written fun _ => True) :
    ∃ c rest, lexis.text v = c :: rest ∧ c ≠ ']' ∧ c ≠ '}' := by
  cases v with
  | null => exact ⟨_, _, rfl, by decide, by decide⟩
  | bool b => cases b <;> exact ⟨_, _, rfl, by decide, by decide⟩
  | number n =>
    obtain ⟨c, rest, htext, hc⟩ := lexis.number_head n hwritten
    refine ⟨c, rest, htext, ?_, ?_⟩
    all_goals
      rintro rfl
      revert hc
      decide
  | string s =>
    obtain ⟨rest, htext⟩ := lexis.string_head s
    exact ⟨_, rest, htext, by decide, by decide⟩
  | array items => exact ⟨_, _, rfl, by decide, by decide⟩
  | object fields => exact ⟨_, _, rfl, by decide, by decide⟩

theorem readValue_scalar {limit : Nat} {c : Char} {rest : List Char} (hbracket : c ≠ '[')
    (hbrace : c ≠ '{') : lexis.readValue limit (c :: rest) = lexis.readScalar (c :: rest) := by
  cases limit with
  | zero => rfl
  | succ limit =>
    unfold readValue
    split
    · rename_i heq
      exact absurd (List.cons.inj heq).1 hbracket
    · rename_i heq
      exact absurd (List.cons.inj heq).1 hbrace
    · rfl

theorem readScalar_number {c : Char} {rest : List Char} (hc : c = '-' ∨ c.isDigit = true) :
    lexis.readScalar (c :: rest) = (lexis.readNumber (c :: rest)).map fun (n, rest) => (.number n, rest) := by
  unfold readScalar
  split
  case h_5 => rfl
  all_goals
    rename_i heq
    rw [(List.cons.inj heq).1] at hc
    exact absurd hc (by decide)

theorem readValue_text_scalar {limit : Nat} {v : Json N} {rest : List Char}
    (hwritten : v.All True lexis.written fun _ => True) (hdepth : v.depth = 0)
    (hrest : Ended rest) : lexis.readValue limit (lexis.text v ++ rest) = some (v, rest) := by
  cases v with
  | null => exact readValue_scalar (by decide) (by decide)
  | bool b => cases b <;> exact readValue_scalar (by decide) (by decide)
  | number n =>
    obtain ⟨c, chars, htext, hc⟩ := lexis.number_head n hwritten
    have hread := lexis.read_number n rest hwritten hrest
    rw [htext, List.cons_append] at hread
    rw [text, htext, List.cons_append, readValue_scalar, readScalar_number hc, hread]
    · rfl
    all_goals
      rintro rfl
      exact absurd hc (by decide)
  | string s =>
    obtain ⟨chars, htext⟩ := lexis.string_head s
    have hread := lexis.read_string s rest
    rw [htext, List.cons_append] at hread
    rw [text, htext, List.cons_append, readValue_scalar (by decide) (by decide), readScalar, hread]
    rfl
  | array items => cases hdepth
  | object fields => cases hdepth

/-- What is written is read back, whatever follows it, if the limit allows its nesting. -/
theorem readValue_text {limit : Nat} {v : Json N} {rest : List Char}
    (hwritten : v.All True lexis.written fun _ => True) (hdepth : v.depth ≤ limit)
    (hrest : Ended rest) : lexis.readValue limit (lexis.text v ++ rest) = some (v, rest) := by
  induction limit generalizing v rest with
  | zero => exact readValue_text_scalar hwritten (Nat.le_zero.mp hdepth) hrest
  | succ limit ih =>
    cases v with
    | array items =>
      rw [all_array] at hwritten
      have hitems := depthItems_le.mp (Nat.le_of_succ_le_succ hdepth)
      have hread : readBlock (lexis.readValue limit) ']'
          (separated (items.map lexis.text) ++ ']' :: rest) = some (items, rest) :=
        readBlock_separated (.inl rfl)
          (fun v hv rest hrest => ih (hwritten v hv) (hitems v hv) hrest) fun v hv => by
            obtain ⟨c, chars, htext, hc, -⟩ := text_head (hwritten v hv)
            exact ⟨c, chars, htext, hc⟩
      rw [text, textItems_eq, List.cons_append, List.append_assoc, List.singleton_append, readValue]
      simp only [hread, Option.map_some]
    | object fields =>
      rw [all_object] at hwritten
      have hfields := depthFields_le.mp (Nat.le_of_succ_le_succ hdepth)
      have hread : readBlock (lexis.readField (lexis.readValue limit)) '}'
          (separated (fields.map fun f => lexis.field f.1 (lexis.text f.2)) ++ '}' :: rest) =
            some (fields, rest) := by
        refine readBlock_separated (.inr rfl) (fun f hf rest hrest => ?_) fun f hf => ?_
        · have hvalue := ih (hwritten.2 f hf) (hfields f hf) hrest
          rw [readField, field, List.append_assoc, lexis.read_string, List.cons_append]
          simp only [hvalue, Option.map_some]
        · obtain ⟨chars, htext⟩ := lexis.string_head f.1
          exact ⟨'"', chars ++ ':' :: lexis.text f.2, by rw [field, htext]; rfl, by decide⟩
      rw [text, textFields_eq, List.cons_append, List.append_assoc, List.singleton_append, readValue]
      simp only [hread, Option.map_some]
    | _ => exact readValue_text_scalar hwritten rfl hrest

theorem read_text {limit : Nat} {v : Json N} (hwritten : v.All True lexis.written fun _ => True)
    (hdepth : v.depth ≤ limit) : lexis.read limit (lexis.text v) = some v := by
  have hread := readValue_text hwritten hdepth ended_nil
  rw [List.append_nil] at hread
  rw [read, hread]

/-- Two values of one text are the same. -/
theorem text_inj {v w : Json N} (hv : v.All True lexis.written fun _ => True)
    (hw : w.All True lexis.written fun _ => True) (h : lexis.text v = lexis.text w) : v = w := by
  have hread := read_text hv (Nat.le_max_left v.depth w.depth)
  rw [h, read_text hw (Nat.le_max_right v.depth w.depth)] at hread
  exact (Option.some.inj hread).symm

end Lexis

end Json

end WalletToolbox.Lib
