import WalletToolbox.Lib.Marks
import WalletToolbox.Permissions.Ensure

/-! # The parts of an originator

An originator is read as a URL: what comes before and after its marks is the scheme, the host and
the port.
The lower case of a text keeps its marks, so it has the same parts.
`normal` is the normal form by these parts, and a text without separators is read as a host and a
port of `https`. -/

namespace WalletToolbox.Permissions

open WalletToolbox.Lib

/-- The characters that an originator is divided by. -/
def IsMark (c : Char) : Prop :=
  c ∈ ":/?#@[]".toList ∨ isAsciiDigit c = true ∨ isWhitespace c = true

instance : DecidablePred IsMark := fun _ => inferInstanceAs (Decidable (_ ∨ _))

/-- What is documented of the lower case of a text: it rewrites the characters one by one into some
others, keeps the marks and makes none, does nothing the second time, and changes a text exactly
when it changes one of its characters. -/
structure Lowercases (lowercase : String → String) : Prop where
  alike : ∀ s, Alike IsMark s.toList (lowercase s).toList
  idempotent : ∀ s, lowercase (lowercase s) = lowercase s
  fixed : ∀ s, lowercase s = s ↔
    ∀ c ∈ s.toList, lowercase (String.ofList [c]) = String.ofList [c]
  https : lowercase "https" = "https"

/-! ## Parts -/

section Split

variable {c : Char} {s a b : List Char}

theorem splitFirst_append (h : c ∉ a) : splitFirst c (a ++ c :: b) = some (a, b) := by
  have hpass : ∀ d ∈ a, decide (d ≠ c) = true := by
    intro d hd
    exact decide_eq_true fun heq => h (heq ▸ hd)
  rw [splitFirst, if_pos (List.mem_append_right _ List.mem_cons_self),
    List.takeWhile_append_of_pos hpass, List.dropWhile_append_of_pos hpass,
    List.takeWhile_cons_of_neg (by simp), List.dropWhile_cons_of_neg (by simp), List.append_nil]
  rfl

theorem splitFirst_eq_none : splitFirst c s = none ↔ c ∉ s := by
  unfold splitFirst
  split <;> simp_all

theorem splitFirst_eq_some : splitFirst c s = some (a, b) ↔ s = a ++ c :: b ∧ c ∉ a := by
  constructor
  · intro h
    have hmem : c ∈ s := by
      by_contra hnot
      rw [splitFirst_eq_none.mpr hnot] at h
      cases h
    obtain ⟨a', b', rfl, hnot⟩ := List.eq_append_cons_of_mem hmem
    rw [splitFirst_append hnot] at h
    cases h
    exact ⟨rfl, hnot⟩
  · rintro ⟨rfl, hnot⟩
    exact splitFirst_append hnot

theorem splitLast_append (h : c ∉ b) : splitLast c (a ++ c :: b) = some (a, b) := by
  have hreverse : (a ++ c :: b).reverse = b.reverse ++ c :: a.reverse := by simp
  rw [splitLast, hreverse, splitFirst_append (by simpa using h)]
  simp

theorem splitLast_eq_none : splitLast c s = none ↔ c ∉ s := by
  rw [splitLast, Option.map_eq_none_iff, splitFirst_eq_none, List.mem_reverse]

theorem splitLast_eq_some : splitLast c s = some (a, b) ↔ s = a ++ c :: b ∧ c ∉ b := by
  constructor
  · intro h
    have hmem : c ∈ s := by
      by_contra hnot
      rw [splitLast_eq_none.mpr hnot] at h
      cases h
    obtain ⟨b', a', heq, hnot⟩ := List.eq_append_cons_of_mem (List.mem_reverse.mpr hmem)
    have hs : s = a'.reverse ++ c :: b'.reverse := by
      rw [← List.reverse_reverse s, heq]
      simp
    rw [hs, splitLast_append (by simpa using hnot)] at h
    cases h
    exact ⟨hs, by simpa using hnot⟩
  · rintro ⟨rfl, hnot⟩
    exact splitLast_append hnot

end Split

/-- The authority of a URL. -/
def authorityOf (rest : List Char) : List Char :=
  ((rest.takeWhile (· ≠ '/')).takeWhile (· ≠ '?')).takeWhile (· ≠ '#')

/-- The authority without the user. -/
def hostPortOf (authority : List Char) : List Char :=
  ((splitLast '@' authority).map Prod.snd).getD authority

/-- The port after an address in brackets. -/
def portAfter (after : List Char) : Option (List Char) :=
  match after with
  | ':' :: port => if port = [] then none else some port
  | _ => none

/-- The host and the port. -/
def hostParts (hostPort : List Char) : Option (List Char × Option (List Char)) :=
  if hostPort.head? = some '[' then
    (splitFirst ']' hostPort).map fun (hostname, after) => (hostname.tail, portAfter after)
  else
    match splitLast ':' hostPort with
    | some (hostname, port) =>
      if port ≠ [] ∧ port.all isAsciiDigit then
        if hostname = [] then none else some (hostname, some port)
      else some (hostPort, none)
    | none => some (hostPort, none)

theorem parseUrlParts_eq {lowercase : String → String} {url scheme rest : List Char}
    (h : splitAt "://".toList url = some (scheme, rest)) :
    parseUrlParts lowercase url =
      if authorityOf rest = [] then none
      else (hostParts (hostPortOf (authorityOf rest))).map fun (host, port) =>
        (lowercase (String.ofList scheme), host, port) := by
  rw [parseUrlParts, h]
  dsimp only
  change (if authorityOf rest = [] then none else _) = _
  split
  · rfl
  · change (if (hostPortOf (authorityOf rest)).head? = some '[' then _ else _) = _
    unfold hostParts
    split
    · rw [Option.map_map]
      rfl
    · change (match splitLast ':' (hostPortOf (authorityOf rest)) with
        | some (hostname, port) => _
        | none => _) = _
      cases splitLast ':' (hostPortOf (authorityOf rest)) with
      | none => rfl
      | some parts =>
        dsimp only
        split
        · split <;> rfl
        · rfl

section HostParts

variable {s a q after : List Char} {port : Option (List Char)}

theorem hostParts_bracket (h : ']' ∉ a) :
    hostParts ('[' :: (a ++ ']' :: after)) = some (a, portAfter after) := by
  have hopen : ']' ∉ '[' :: a := by
    intro hmem
    exact (List.mem_cons.mp hmem).elim (by decide) h
  rw [hostParts, if_pos List.head?_cons, ← List.cons_append, splitFirst_append hopen]
  rfl

theorem hostParts_open (h : ']' ∉ s) : hostParts ('[' :: s) = none := by
  have hopen : ']' ∉ '[' :: s := by
    intro hmem
    exact (List.mem_cons.mp hmem).elim (by decide) h
  rw [hostParts, if_pos List.head?_cons, splitFirst_eq_none.mpr hopen]
  rfl

theorem hostParts_plain (hhead : s.head? ≠ some '[') (h : ':' ∉ s) :
    hostParts s = some (s, none) := by
  rw [hostParts, if_neg hhead, splitLast_eq_none.mpr h]

theorem colon_notMem_digits (h : q.all isAsciiDigit) : ':' ∉ q := by
  intro hmem
  exact absurd (List.all_eq_true.mp h _ hmem) (by decide)

theorem hostParts_port (hhead : (a ++ ':' :: q).head? ≠ some '[') (hne : q ≠ [])
    (h : q.all isAsciiDigit) :
    hostParts (a ++ ':' :: q) = if a = [] then none else some (a, some q) := by
  rw [hostParts, if_neg hhead, splitLast_append (colon_notMem_digits h)]
  exact if_pos ⟨hne, h⟩

theorem hostParts_text (hhead : (a ++ ':' :: q).head? ≠ some '[') (hcolon : ':' ∉ q)
    (h : ¬(q ≠ [] ∧ q.all isAsciiDigit)) :
    hostParts (a ++ ':' :: q) = some (a ++ ':' :: q, none) := by
  rw [hostParts, if_neg hhead, splitLast_append hcolon]
  exact if_neg h

/-- Where the host and the port come from. -/
theorem hostParts_cases (h : hostParts s = some (a, port)) :
    (∃ after, s = '[' :: (a ++ ']' :: after) ∧ ']' ∉ a ∧ port = portAfter after) ∨
      s.head? ≠ some '[' ∧ (s = a ∧ port = none ∨
        ∃ q, s = a ++ ':' :: q ∧ port = some q ∧ q ≠ [] ∧ q.all isAsciiDigit ∧ a ≠ []) := by
  by_cases hhead : s.head? = some '['
  · left
    obtain ⟨r, rfl⟩ := List.head?_eq_some_iff.mp hhead
    by_cases hclose : ']' ∈ r
    · obtain ⟨b, after, rfl, hb⟩ := List.eq_append_cons_of_mem hclose
      rw [hostParts_bracket hb] at h
      cases h
      exact ⟨after, rfl, hb, rfl⟩
    · rw [hostParts_open hclose] at h
      cases h
  · right
    refine ⟨hhead, ?_⟩
    by_cases hcolon : ':' ∈ s
    · obtain ⟨⟨b, q⟩, hlast⟩ := Option.ne_none_iff_exists'.mp fun hnone =>
        splitLast_eq_none.mp hnone hcolon
      obtain ⟨rfl, hq⟩ := splitLast_eq_some.mp hlast
      by_cases hdigits : q ≠ [] ∧ q.all isAsciiDigit
      · rw [hostParts_port hhead hdigits.1 hdigits.2] at h
        split at h
        · cases h
        · next hb =>
          cases h
          exact Or.inr ⟨q, rfl, rfl, hdigits.1, hdigits.2, hb⟩
      · rw [hostParts_text hhead hq hdigits] at h
        cases h
        exact Or.inl ⟨rfl, rfl⟩
    · rw [hostParts_plain hhead hcolon] at h
      cases h
      exact Or.inl ⟨rfl, rfl⟩

/-- There is no host before a bracket that is not closed, nor before a port. -/
theorem hostParts_eq_none : hostParts s = none ↔
    (s.head? = some '[' ∧ ']' ∉ s) ∨ ∃ q, s = ':' :: q ∧ q ≠ [] ∧ q.all isAsciiDigit := by
  constructor
  · intro h
    by_cases hhead : s.head? = some '['
    · left
      rw [hostParts, if_pos hhead, Option.map_eq_none_iff, splitFirst_eq_none] at h
      exact ⟨hhead, h⟩
    · right
      rw [hostParts, if_neg hhead] at h
      cases hlast : splitLast ':' s with
      | none =>
        rw [hlast] at h
        cases h
      | some parts =>
        obtain ⟨rfl, -⟩ := splitLast_eq_some.mp hlast
        rw [hlast] at h
        dsimp only at h
        split_ifs at h with hport hhost
        rw [hhost]
        exact ⟨_, rfl, hport⟩
  · rintro (⟨hhead, hclose⟩ | ⟨q, rfl, hne, hdigits⟩)
    · rw [hostParts, if_pos hhead, splitFirst_eq_none.mpr hclose]
      rfl
    · exact (hostParts_port (a := []) (by simp) hne hdigits).trans (if_pos rfl)

end HostParts

/-! ## What the lower case does not change -/

section Alike

variable {s t : List Char}

theorem isMark_of_mem {c : Char} (h : c ∈ ":/?#@[]".toList) : IsMark c := Or.inl h

theorem isMark_digit {c : Char} (h : isAsciiDigit c = true) : IsMark c := Or.inr (Or.inl h)

theorem hostParts_none_alike (h : Alike IsMark s t) (hnone : hostParts s = none) :
    hostParts t = none := by
  rw [hostParts_eq_none] at hnone ⊢
  obtain ⟨hhead, hclose⟩ | ⟨q, rfl, hne, hdigits⟩ := hnone
  · left
    rw [← h.head?_iff (isMark_of_mem (by decide)), ← h.mem_iff (isMark_of_mem (by decide))]
    exact ⟨hhead, hclose⟩
  · right
    obtain ⟨q', rfl, hq⟩ := h.tail_of_mark (isMark_of_mem (by decide))
    refine ⟨q', rfl, fun hnil => hne (hq.eq_nil_iff.mpr hnil), ?_⟩
    rw [← hq.all_iff fun c => isMark_digit]
    exact hdigits

theorem hostPortOf_alike (h : Alike IsMark s t) : Alike IsMark (hostPortOf s) (hostPortOf t) := by
  have hat : IsMark '@' := isMark_of_mem (by decide)
  by_cases hmem : '@' ∈ s
  · obtain ⟨⟨a, b⟩, hlast⟩ := Option.ne_none_iff_exists'.mp fun hnone =>
      splitLast_eq_none.mp hnone hmem
    obtain ⟨rfl, hb⟩ := splitLast_eq_some.mp hlast
    obtain ⟨a', b', rfl, -, hbb⟩ := h.divide hat
    have hb' : '@' ∉ b' := fun hmem => hb ((hbb.mem_iff hat).mpr hmem)
    rw [hostPortOf, hostPortOf, splitLast_append hb, splitLast_append hb']
    exact hbb
  · have hmem' : '@' ∉ t := fun hmem' => hmem ((h.mem_iff hat).mpr hmem')
    rw [hostPortOf, hostPortOf, splitLast_eq_none.mpr hmem, splitLast_eq_none.mpr hmem']
    exact h

theorem authorityOf_alike (h : Alike IsMark s t) : Alike IsMark (authorityOf s) (authorityOf t) := by
  have hpass : ∀ {d : Char}, d ∈ ":/?#@[]".toList → ∀ c, ¬IsMark c → decide (c ≠ d) = true := by
    intro d hd c hc
    refine decide_eq_true ?_
    rintro rfl
    exact hc (isMark_of_mem hd)
  have hpath := (h.span (hpass (d := '/') (by decide))).1
  have hquery := (hpath.span (hpass (d := '?') (by decide))).1
  exact (hquery.span (hpass (d := '#') (by decide))).1

/-- What separates the scheme from the rest. -/
theorem isPrefixOf_separator : "://".toList.isPrefixOf s = true ↔ ∃ r, s = ':' :: '/' :: '/' :: r := by
  rw [List.isPrefixOf_iff_prefix]
  exact ⟨fun ⟨r, hr⟩ => ⟨r, hr.symm⟩, fun ⟨r, hr⟩ => ⟨r, hr.symm⟩⟩

theorem splitAt_separator : splitAt "://".toList (':' :: '/' :: '/' :: s) = some ([], s) := by
  rw [splitAt, if_pos (isPrefixOf_separator.mpr ⟨s, rfl⟩)]
  rfl

theorem splitAt_cons {c : Char} (h : ¬∃ r, c :: s = ':' :: '/' :: '/' :: r) :
    splitAt "://".toList (c :: s) =
      (splitAt "://".toList s).map fun (before, after) => (c :: before, after) := by
  rw [splitAt, if_neg fun hprefix => h (isPrefixOf_separator.mp hprefix)]

theorem splitAt_append {piece : List Char} (h : ':' ∉ piece) :
    splitAt "://".toList (piece ++ t) =
      (splitAt "://".toList t).map fun (before, after) => (piece ++ before, after) := by
  induction piece with
  | nil => simp
  | cons c piece ih =>
    rw [List.cons_append, splitAt_cons, ih fun hmem => h (List.mem_cons_of_mem c hmem), Option.map_map]
    · rfl
    · rintro ⟨r, hr⟩
      exact h ((List.cons.inj hr).1 ▸ List.mem_cons_self)

/-- The lower case of a URL has a scheme when the URL does, and the same kind of rest. -/
theorem splitAt_alike (h : Alike IsMark s t) :
    (splitAt "://".toList s = none → splitAt "://".toList t = none) ∧
      ∀ a b, splitAt "://".toList s = some (a, b) →
        ∃ a' b', splitAt "://".toList t = some (a', b') ∧ Alike IsMark b b' := by
  have hcolon : IsMark ':' := isMark_of_mem (by decide)
  have hslash : IsMark '/' := isMark_of_mem (by decide)
  induction h with
  | nil => exact ⟨fun _ => rfl, nofun⟩
  | @mark c s t hc h ih =>
    by_cases hsep : ∃ r, c :: s = ':' :: '/' :: '/' :: r
    · obtain ⟨r, hr⟩ := hsep
      obtain ⟨rfl, rfl⟩ := List.cons.inj hr
      obtain ⟨t', rfl, h'⟩ := h.tail_of_mark hslash
      obtain ⟨t'', rfl, h''⟩ := h'.tail_of_mark hslash
      rw [splitAt_separator, splitAt_separator]
      exact ⟨nofun, fun a b hab => by cases hab; exact ⟨[], t'', rfl, h''⟩⟩
    · have hsep' : ¬∃ r, c :: t = ':' :: '/' :: '/' :: r := by
        rintro ⟨r, hr⟩
        obtain ⟨rfl, rfl⟩ := List.cons.inj hr
        obtain ⟨s', rfl, h'⟩ := h.tail_of_mark' hslash
        obtain ⟨s'', rfl, -⟩ := h'.tail_of_mark' hslash
        exact hsep ⟨s'', rfl⟩
      rw [splitAt_cons hsep, splitAt_cons hsep', Option.map_eq_none_iff, Option.map_eq_none_iff]
      refine ⟨ih.1, fun a b hab => ?_⟩
      obtain ⟨⟨a₀, b₀⟩, hsplit, heq⟩ := Option.map_eq_some_iff.mp hab
      cases heq
      obtain ⟨a', b', hsplit', hb⟩ := ih.2 _ _ hsplit
      exact ⟨c :: a', b', by rw [hsplit']; rfl, hb⟩
  | @text c piece s t hc hne hpiece h ih =>
    have hsep : ¬∃ r, c :: s = ':' :: '/' :: '/' :: r := by
      rintro ⟨r, hr⟩
      exact hc ((List.cons.inj hr).1 ▸ hcolon)
    rw [splitAt_cons hsep, splitAt_append fun hmem => hpiece _ hmem hcolon, Option.map_eq_none_iff,
      Option.map_eq_none_iff]
    refine ⟨ih.1, fun a b hab => ?_⟩
    obtain ⟨⟨a₀, b₀⟩, hsplit, heq⟩ := Option.map_eq_some_iff.mp hab
    cases heq
    obtain ⟨a', b', hsplit', hb⟩ := ih.2 _ _ hsplit
    exact ⟨piece ++ a', b', by rw [hsplit']; rfl, hb⟩

/-- What is not a URL is none in lower case either. -/
theorem parseUrlParts_none_alike {lowercase : String → String} (h : Alike IsMark s t)
    (hnone : parseUrlParts lowercase s = none) : parseUrlParts lowercase t = none := by
  cases hs : splitAt "://".toList s with
  | none => rw [parseUrlParts, (splitAt_alike h).1 hs]
  | some parts =>
    obtain ⟨scheme', rest', ht, hrest⟩ := (splitAt_alike h).2 _ _ hs
    have hauthority := authorityOf_alike hrest
    rw [parseUrlParts_eq hs] at hnone
    rw [parseUrlParts_eq ht]
    by_cases hnil : authorityOf parts.2 = []
    · rw [if_pos (hauthority.eq_nil_iff.mp hnil)]
    · rw [if_neg hnil, Option.map_eq_none_iff] at hnone
      rw [hostParts_none_alike (hostPortOf_alike hauthority) hnone]
      exact ite_self _

end Alike

/-! ## White space -/

section Trim

variable {s t : List Char}

/-- A text that does not start or end with white space. -/
structure Trimmed (s : List Char) : Prop where
  first : ∀ c, s.head? = some c → isWhitespace c = false
  last : ∀ c, s.getLast? = some c → isWhitespace c = false

theorem trimStart_eq_self (h : ∀ c, s.head? = some c → isWhitespace c = false) : trimStart s = s := by
  cases s with
  | nil => rfl
  | cons c s =>
    have hc : isWhitespace c = false := h c rfl
    exact List.dropWhile_cons_of_neg (by simp [hc])

theorem head?_trimStart {c : Char} (h : (trimStart s).head? = some c) : isWhitespace c = false := by
  obtain ⟨r, hr⟩ := List.head?_eq_some_iff.mp h
  have hnot := List.head?_dropWhile_not isWhitespace s
  rw [show s.dropWhile isWhitespace = c :: r from hr] at hnot
  simpa using hnot

theorem Trimmed.trim_eq (h : Trimmed s) : trim s = s := by
  have hlast : ∀ c, s.reverse.head? = some c → isWhitespace c = false := by
    intro c hc
    exact h.last c (by rwa [List.head?_reverse] at hc)
  rw [trim, trimStart_eq_self h.first, trimStart_eq_self hlast, List.reverse_reverse]

theorem trimmed_trim (s : List Char) : Trimmed (trim s) := by
  constructor
  · intro c hc
    obtain ⟨r, hr⟩ : trim s <+: trimStart s := by
      have hsuffix : trimStart (trimStart s).reverse <:+ (trimStart s).reverse :=
        List.dropWhile_suffix _
      simpa [trim] using List.reverse_prefix.mpr hsuffix
    refine head?_trimStart (s := s) ?_
    rw [← hr, List.head?_append, hc]
    rfl
  · intro c hc
    rw [trim, List.getLast?_reverse] at hc
    exact head?_trimStart hc

theorem Trimmed.alike (hs : Trimmed s) (h : Alike IsMark s t) : Trimmed t := by
  constructor
  · intro c hc
    by_contra hspace
    have hmark : IsMark c := Or.inr (Or.inr (by simpa using hspace))
    exact hspace (hs.first c ((h.head?_iff hmark).mpr hc))
  · intro c hc
    by_contra hspace
    have hmark : IsMark c := Or.inr (Or.inr (by simpa using hspace))
    rw [← List.head?_reverse, ← h.reverse.head?_iff hmark, List.head?_reverse] at hc
    exact hspace (hs.last c hc)

theorem trim_sublist (s : List Char) : (trim s).Sublist s := by
  have hstart : (trimStart s).Sublist s := List.dropWhile_sublist _
  have hend : (trimStart (trimStart s).reverse).Sublist (trimStart s).reverse :=
    List.dropWhile_sublist _
  rw [trim]
  exact (List.reverse_sublist.mp (by rwa [List.reverse_reverse])).trans hstart

theorem last_append {u : List Char} (hne : t ≠ []) : (s ++ u ++ t).getLast? = t.getLast? := by
  obtain ⟨d, hd⟩ := Option.isSome_iff_exists.mp (List.getLast?_isSome.mpr hne)
  rw [List.getLast?_append, hd]
  rfl

/-- The last character after some other one. -/
theorem last_append_cons {c d : Char} (h : (s ++ c :: t).getLast? = some d) :
    d = c ∨ t.getLast? = some d := by
  rw [List.getLast?_append, List.getLast?_cons] at h
  cases hlast : t.getLast? with
  | none =>
    rw [hlast] at h
    exact Or.inl (Option.some.inj h).symm
  | some e =>
    rw [hlast] at h
    exact Or.inr h

theorem digits_last {c : Char} (h : s.all isAsciiDigit) (hlast : s.getLast? = some c) :
    isWhitespace c = false := by
  have hdigit := List.all_eq_true.mp h c (List.mem_of_getLast? hlast)
  rw [isAsciiDigit, Bool.and_eq_true, decide_eq_true_eq, decide_eq_true_eq] at hdigit
  have hlow : 0x30 ≤ c.toNat := hdigit.1
  have hhigh : c.toNat ≤ 0x39 := hdigit.2
  rw [isWhitespace, Bool.eq_false_iff]
  simp only [ne_eq, Bool.or_eq_true, Bool.and_eq_true, decide_eq_true_eq, List.contains_eq_mem,
    List.mem_cons, List.not_mem_nil, or_false]
  omega

/-- A text in brackets is trimmed up to what follows it. -/
theorem trimmed_bracket (h : ∀ c, t.getLast? = some c → isWhitespace c = false) :
    Trimmed ('[' :: (s ++ ']' :: t)) := by
  constructor
  · intro c hc
    cases hc
    decide
  · intro c hc
    rw [← List.cons_append] at hc
    obtain rfl | hlast := last_append_cons hc
    · decide
    · exact h c hlast

end Trim

/-! ## What is written -/

section Written

variable (lowercase : String → String)

/-- The lower case of a text, by its characters. -/
def lower (s : List Char) : List Char := (lowercase (String.ofList s)).toList

/-- The URL that is parsed. -/
def candidate (trimmed : List Char) : List Char :=
  if startsWith (lowercase (String.ofList trimmed)) "http://" ||
      startsWith (lowercase (String.ofList trimmed)) "https://" then trimmed
  else "https://".toList ++ trimmed

/-- The port that is written. -/
def keptPort (scheme : String) (port : Option (List Char)) : Option (List Char) :=
  port.filter fun p =>
    (if scheme = "http" then some "80" else if scheme = "https" then some "443" else none) ≠
      some (String.ofList p)

/-- The lower case of the host, and the port that is written; a text without a host has none. -/
def partsOf (trimmed : List Char) : Option (List Char × Option (List Char)) :=
  (parseUrlParts lowercase (candidate lowercase trimmed)).map fun (scheme, host, port) =>
    (lower lowercase host, keptPort scheme port)

/-- A host and a port as a text. -/
def written (host : List Char) (port : Option (List Char)) : List Char :=
  (if ':' ∈ host then '[' :: (host ++ [']']) else host) ++ (port.map (':' :: ·)).getD []

/-- The normal form by characters. -/
def normal (trimmed : List Char) : List Char :=
  if trimmed = [] then []
  else
    match partsOf lowercase trimmed with
    | some (host, port) => written host port
    | none => lower lowercase trimmed

theorem normalizeOriginator_eq (x : String) :
    (normalizeOriginator lowercase x).toList = normal lowercase (trim x.toList) := by
  unfold normalizeOriginator normal
  dsimp only
  split
  · rfl
  · rw [← candidate, partsOf]
    cases hparse : parseUrlParts lowercase (candidate lowercase (trim x.toList)) with
    | none => rfl
    | some parts =>
      obtain ⟨scheme, host, port⟩ := parts
      have hbase : (if ':' ∈ lower lowercase host then
          "[" ++ lowercase (String.ofList host) ++ "]" else lowercase (String.ofList host)).toList =
            if ':' ∈ lower lowercase host then '[' :: (lower lowercase host ++ [']'])
            else lower lowercase host := by
        split
        · rw [String.toList_append, String.toList_append]
          rfl
        · rfl
      cases port with
      | none =>
        dsimp only [Option.map_some, keptPort, Option.filter_none, written]
        rw [Option.map_none, Option.getD_none, List.append_nil]
        exact hbase
      | some p =>
        by_cases hdefault :
            (if scheme = "http" then some "80" else if scheme = "https" then some "443" else none) =
              some (String.ofList p)
        · have hkept : keptPort scheme (some p) = none := by simp [keptPort, hdefault]
          dsimp only [Option.map_some]
          rw [hkept, if_pos hdefault, written, Option.map_none, Option.getD_none, List.append_nil]
          exact hbase
        · have hkept : keptPort scheme (some p) = some p := by simp [keptPort, hdefault]
          dsimp only [Option.map_some]
          rw [hkept, if_neg hdefault, written, Option.map_some, Option.getD_some,
            String.toList_append, String.toList_append, List.append_assoc]
          have hport : ":".toList ++ (String.ofList p).toList = ':' :: p :=
            congrArg (':' :: ·) String.toList_ofList
          rw [hport]
          exact congrArg (· ++ ':' :: p) hbase

variable {lowercase}

theorem Lowercases.lower_alike (hlower : Lowercases lowercase) (s : List Char) :
    Alike IsMark s (lower lowercase s) := by
  simpa [lower] using hlower.alike (String.ofList s)

theorem Lowercases.lower_lower (hlower : Lowercases lowercase) (s : List Char) :
    lower lowercase (lower lowercase s) = lower lowercase s := by
  simp only [lower, String.ofList_toList, hlower.idempotent]

theorem lower_eq_iff_lowercase {s : List Char} :
    lower lowercase s = s ↔ lowercase (String.ofList s) = String.ofList s := by
  rw [← String.toList_inj, String.toList_ofList, lower]

/-- A text is in lower case when its characters are. -/
theorem Lowercases.lower_eq_iff (hlower : Lowercases lowercase) {s : List Char} :
    lower lowercase s = s ↔ ∀ c ∈ s, lower lowercase [c] = [c] := by
  rw [lower_eq_iff_lowercase, hlower.fixed, String.toList_ofList]
  exact forall₂_congr fun c _ => lower_eq_iff_lowercase.symm

/-- No separator of URLs is in a text. -/
def Clean (s : List Char) : Prop := ∀ c ∈ "/?#@".toList, c ∉ s

theorem Clean.subset {s t : List Char} (h : Clean t) (hsub : s ⊆ t) : Clean s :=
  fun c hc hmem => h c hc (hsub hmem)

theorem Clean.isMark {c : Char} (hc : c ∈ "/?#@".toList) : IsMark c := by
  have hmarks : "/?#@".toList = ['/', '?', '#', '@'] := rfl
  simp only [hmarks, List.mem_cons, List.not_mem_nil, or_false] at hc
  rcases hc with rfl | rfl | rfl | rfl
  · exact isMark_of_mem (by decide)
  · exact isMark_of_mem (by decide)
  · exact isMark_of_mem (by decide)
  · exact isMark_of_mem (by decide)

theorem Clean.takeWhile_eq {s : List Char} {c : Char} (h : Clean s) (hc : c ∈ "/?#@".toList) :
    s.takeWhile (· ≠ c) = s :=
  List.takeWhile_eq_self_iff.mpr fun _ hd => decide_eq_true fun heq => h c hc (heq ▸ hd)

theorem Clean.authorityOf_eq {s : List Char} (h : Clean s) : authorityOf s = s := by
  rw [authorityOf, h.takeWhile_eq (by decide), h.takeWhile_eq (by decide), h.takeWhile_eq (by decide)]

theorem Clean.hostPortOf_eq {s : List Char} (h : Clean s) : hostPortOf s = s := by
  rw [hostPortOf, splitLast_eq_none.mpr (h '@' (by decide))]
  rfl

/-- The host and the port of any authority have no separators. -/
theorem clean_hostPortOf (rest : List Char) : Clean (hostPortOf (authorityOf rest)) := by
  have hauthority : ∀ c ∈ "/?#".toList, c ∉ authorityOf rest := by
    intro c hc hmem
    have hfragment := List.mem_takeWhile_imp hmem
    have hquery := List.mem_takeWhile_imp ((List.takeWhile_subset _) hmem)
    have hpath := List.mem_takeWhile_imp ((List.takeWhile_subset _) ((List.takeWhile_subset _) hmem))
    rw [decide_eq_true_eq] at hfragment hquery hpath
    rcases show c = '/' ∨ c = '?' ∨ c = '#' by simpa using hc with rfl | rfl | rfl
    · exact hpath rfl
    · exact hquery rfl
    · exact hfragment rfl
  have hsub : hostPortOf (authorityOf rest) ⊆ authorityOf rest ∧
      '@' ∉ hostPortOf (authorityOf rest) := by
    cases hlast : splitLast '@' (authorityOf rest) with
    | none =>
      rw [hostPortOf, hlast]
      exact ⟨fun _ h => h, splitLast_eq_none.mp hlast⟩
    | some parts =>
      obtain ⟨heq, hat⟩ := splitLast_eq_some.mp hlast
      rw [hostPortOf, hlast]
      refine ⟨?_, hat⟩
      rw [heq]
      exact fun c hc => List.mem_append_right _ (List.mem_cons_of_mem _ hc)
  intro c hc hmem
  rcases show c ∈ "/?#".toList ∨ c = '@' by simpa [or_assoc] using hc with hc | rfl
  · exact hauthority c hc (hsub.1 hmem)
  · exact hsub.2 hmem

theorem keptPort_https (port : Option (List Char)) :
    keptPort "https" port = port.filter (· ≠ "443".toList) := by
  refine congrArg (port.filter ·) (funext fun p => ?_)
  have hiff : String.ofList p = "443" ↔ p = "443".toList := by
    rw [← String.toList_inj, String.toList_ofList]
  have hne : ("https" : String) ≠ "http" := by decide
  simp only [hne, if_false, if_true, ne_eq, Option.some.injEq, eq_comm (a := "443"), hiff]

theorem Lowercases.candidate_clean (hlower : Lowercases lowercase) {z : List Char}
    (hclean : Clean z) : candidate lowercase z = "https://".toList ++ z := by
  have hslash : '/' ∉ lower lowercase z := fun hmem =>
    hclean '/' (by decide) (((hlower.lower_alike z).mem_iff (isMark_of_mem (by decide))).mpr hmem)
  have hnot : ∀ {pattern : String}, '/' ∈ pattern.toList →
      startsWith (lowercase (String.ofList z)) pattern = false := by
    intro pattern hpattern
    refine Bool.eq_false_iff.mpr fun hprefix => hslash ?_
    exact (List.isPrefixOf_iff_prefix.mp hprefix).subset hpattern
  rw [candidate, hnot (by decide), hnot (by decide)]
  rfl

/-- A text without separators is read as a host and a port of `https`. -/
theorem Lowercases.partsOf_clean (hlower : Lowercases lowercase) {z : List Char} (hclean : Clean z)
    (hne : z ≠ []) : partsOf lowercase z = (hostParts z).map fun (host, port) =>
      (lower lowercase host, port.filter (· ≠ "443".toList)) := by
  have hsplit : splitAt "://".toList ("https://".toList ++ z) = some ("https".toList, z) := by
    have hurl : "https://".toList ++ z = "https".toList ++ ':' :: '/' :: '/' :: z := rfl
    rw [hurl, splitAt_append (by decide), splitAt_separator]
    rfl
  have hscheme : lowercase (String.ofList "https".toList) = "https" := hlower.https
  rw [partsOf, hlower.candidate_clean hclean, parseUrlParts_eq hsplit, hclean.authorityOf_eq,
    hclean.hostPortOf_eq, if_neg hne, Option.map_map]
  refine congrArg (Option.map · (hostParts z)) (funext fun parts => ?_)
  have hport := keptPort_https parts.2
  rw [← hscheme] at hport
  exact congrArg (Prod.mk _) hport

end Written

end WalletToolbox.Permissions
