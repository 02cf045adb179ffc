import WalletToolbox.Laws.OriginatorParts
import WalletToolbox.Lib.Fields

/-! # Normal originators

An originator is normalized before it is checked, and the check normalizes it again.
The second time it is read as `https`, since the scheme is not part of what is written, so a text is
only stable when what is written reads back as the host and the port that were kept.
`Stable` says on the parts of an originator when that is so. -/

namespace WalletToolbox.Permissions

open WalletToolbox.Lib

/-! ## What reads back -/

section ReadsBack

variable (lowercase : String → String) (host : List Char) (port : Option (List Char))

/-- What is known of the host in lower case and of the port that are written: there are no
separators, and a bracket is only in a host that does not start with one and that has a proper
port. -/
structure KeptParts : Prop where
  lowered : lower lowercase host = host
  clean : Clean host
  portClean : ∀ q, port = some q → Clean q ∧ q ≠ []
  bracket : ']' ∈ host → host.head? ≠ some '[' ∧ ∀ q, port = some q → q.all isAsciiDigit

/-- A port after brackets can be written without being dropped, and a text in it that is closed by
a bracket is in lower case. -/
def PortReadsBack (q : List Char) : Prop :=
  (∀ c, q.getLast? = some c → isWhitespace c = false) ∧
    match splitFirst ']' q with
    | none => lower lowercase q = q
    | some (a, after) => lower lowercase a = a ∧
      (after = [] ∨ ∃ q', after = ':' :: q' ∧ q' ≠ [] ∧ q' ≠ "443".toList)

/-- When a host and a port, written out, are read as the same host and port.
A host with a colon is written in brackets: a bracket in it has to come before a colon and after
one, and a port must not be that of `https` nor end with white space.
Any other host has to be trimmed and to have a proper port, which is not that of `https`; what is
left of an address without its closing bracket has a port that reads back on its own. -/
def ReadsBack : Prop :=
  if ':' ∈ host then
    (']' ∈ host → ∃ a r, host = a ++ ']' :: ':' :: r ∧ ']' ∉ a ∧ ':' ∈ a) ∧
      ∀ q, port = some q → (∀ c, q.getLast? = some c → isWhitespace c = false) ∧
        (']' ∉ host → q ≠ "443".toList)
  else
    match port with
    | none => Trimmed host
    | some q =>
      if host.head? = some '[' then PortReadsBack lowercase q
      else (∀ c, host.head? = some c → isWhitespace c = false) ∧ q.all isAsciiDigit ∧
        (host ≠ [] → q ≠ "443".toList)

variable {lowercase host port}

theorem written_of_colon (h : ':' ∈ host) :
    written host port = '[' :: (host ++ ']' :: (port.map (':' :: ·)).getD []) := by
  rw [written, if_pos h, List.cons_append, List.append_assoc]
  rfl

theorem written_none (h : ':' ∉ host) : written host none = host := by
  rw [written, if_neg h]
  exact List.append_nil host

theorem written_some {q : List Char} (h : ':' ∉ host) : written host (some q) = host ++ ':' :: q := by
  rw [written, if_neg h]
  rfl

theorem KeptParts.clean_written (h : KeptParts lowercase host port) : Clean (written host port) := by
  intro c hc hmem
  have hbrackets : c ≠ '[' ∧ c ≠ ']' ∧ c ≠ ':' := by
    rcases show c = '/' ∨ c = '?' ∨ c = '#' ∨ c = '@' by simpa using hc with rfl | rfl | rfl | rfl <;>
      decide
  have hport : c ∉ (port.map (':' :: ·)).getD [] := by
    cases port with
    | none => exact List.not_mem_nil
    | some q =>
      intro hq
      exact (List.mem_cons.mp hq).elim hbrackets.2.2 ((h.portClean q rfl).1 c hc)
  rw [written, List.mem_append] at hmem
  refine hmem.elim ?_ hport
  split
  · simp [hbrackets.1, hbrackets.2.1, h.clean c hc]
  · exact h.clean c hc

theorem Lowercases.normal_clean (hlower : Lowercases lowercase) {z : List Char} (hclean : Clean z)
    (hne : z ≠ []) : normal lowercase z =
      match hostParts z with
      | some (a, q) => written (lower lowercase a) (q.filter (· ≠ "443".toList))
      | none => lower lowercase z := by
  rw [normal, if_neg hne, hlower.partsOf_clean hclean hne]
  cases hostParts z with
  | none => rfl
  | some parts => rfl

theorem Lowercases.normal_none (hlower : Lowercases lowercase) {z : List Char} (hclean : Clean z)
    (hne : z ≠ []) (h : hostParts z = none) :
    normal lowercase z = lower lowercase z := by
  rw [hlower.normal_clean hclean hne, h]

theorem Lowercases.normal_some (hlower : Lowercases lowercase) {z a : List Char}
    {q : Option (List Char)} (hclean : Clean z) (hne : z ≠ []) (h : hostParts z = some (a, q)) :
    normal lowercase z =
      written (lower lowercase a) (q.filter (· ≠ "443".toList)) := by
  rw [hlower.normal_clean hclean hne, h]

theorem Lowercases.lower_mark (hlower : Lowercases lowercase) {c : Char} (hc : IsMark c) :
    lower lowercase [c] = [c] := by
  obtain ⟨t, ht, hnil⟩ := (hlower.lower_alike [c]).tail_of_mark hc
  rw [ht, hnil.eq_nil_iff.mp rfl]

theorem Lowercases.lower_append_iff (hlower : Lowercases lowercase) {s t : List Char} :
    lower lowercase (s ++ t) = s ++ t ↔
      lower lowercase s = s ∧ lower lowercase t = t := by
  rw [hlower.lower_eq_iff, hlower.lower_eq_iff, hlower.lower_eq_iff]
  simp only [List.mem_append, or_imp, forall_and]

theorem Lowercases.lower_cons_mark (hlower : Lowercases lowercase) {c : Char} {s : List Char}
    (hc : IsMark c) : lower lowercase (c :: s) = c :: s ↔
      lower lowercase s = s := by
  rw [← List.singleton_append, hlower.lower_append_iff]
  exact and_iff_right (hlower.lower_mark hc)

theorem portAfter_other {c : Char} {s : List Char} (h : c ≠ ':') : portAfter (c :: s) = none := by
  unfold portAfter
  split
  · next heq => exact absurd (List.cons.inj heq).1 h
  · rfl

theorem length_written_none (a : List Char) : (written a none).length ≤ a.length + 2 := by
  unfold written
  split <;> simp

theorem portAfter_some {after p : List Char} (h : portAfter after = some p) :
    after = ':' :: p ∧ p ≠ [] := by
  unfold portAfter at h
  split at h
  · split at h
    · cases h
    · next hne =>
      cases h
      exact ⟨rfl, hne⟩
  · cases h

/-- What is written of a port is nothing or the port. -/
theorem filter_cases (port : Option (List Char)) (keeps : List Char → Bool) :
    port.filter keeps = none ∨ ∃ p, port = some p ∧ port.filter keeps = some p := by
  cases port with
  | none => exact Or.inl rfl
  | some p =>
    by_cases hp : keeps p
    · exact Or.inr ⟨p, rfl, by rw [Option.filter_some, if_pos hp]⟩
    · exact Or.inl (by rw [Option.filter_some, if_neg hp])

/-! A text without a bracket in front -/

theorem normal_ne_of_colon {y a : List Char} {q : Option (List Char)} (hhead : y.head? ≠ some '[')
    (h : ':' ∈ a) : written a q ≠ y := by
  rintro rfl
  rw [written_of_colon h] at hhead
  exact hhead rfl

/-- A host and a port without brackets are read back when the port is proper and is not dropped. -/
theorem Lowercases.normal_port_iff (hlower : Lowercases lowercase) {q : List Char}
    (hcolon : ':' ∉ host) (hhead : (host ++ ':' :: q).head? ≠ some '[') (hne : q ≠ [])
    (hclean : Clean (host ++ ':' :: q)) (hlowered : lower lowercase host = host) :
    normal lowercase (host ++ ':' :: q) = host ++ ':' :: q ↔
      q.all isAsciiDigit ∧ (host ≠ [] → q ≠ "443".toList) := by
  have hnil : host ++ ':' :: q ≠ [] := by simp
  have hmark : IsMark ':' := isMark_of_mem (by decide)
  by_cases hdigits : q.all isAsciiDigit
  · rw [and_iff_right hdigits]
    by_cases hhost : host = []
    · subst hhost
      have hnone := (hostParts_port hhead hne hdigits).trans (if_pos rfl)
      have hq : lower lowercase q = q := hlower.lower_eq_iff.mpr fun c hc =>
        hlower.lower_mark (isMark_digit (List.all_eq_true.mp hdigits c hc))
      rw [hlower.normal_none hclean hnil hnone]
      exact iff_of_true ((hlower.lower_cons_mark hmark).mpr hq) fun h => absurd rfl h
    · have hsome := (hostParts_port hhead hne hdigits).trans (if_neg hhost)
      rw [hlower.normal_some hclean hnil hsome, hlowered, forall_prop_of_true hhost]
      by_cases hdefault : q = "443".toList
      · rw [Option.filter_some, if_neg (by simpa using hdefault), written_none hcolon]
        exact iff_of_false (by simp) fun h => h hdefault
      · rw [Option.filter_some, if_pos (by simpa using hdefault), written_some hcolon]
        exact iff_of_true rfl hdefault
  · refine iff_of_false ?_ fun h => hdigits h.1
    -- the text is read with a host that has a colon, so it is written in brackets
    obtain ⟨⟨a, p⟩, hlast⟩ := Option.ne_none_iff_exists'.mp fun hnone =>
      splitLast_eq_none.mp hnone (List.mem_append_right host List.mem_cons_self)
    obtain ⟨heq, hp⟩ := splitLast_eq_some.mp hlast
    have hlowerColon : ∀ {b : List Char}, ':' ∈ b → ':' ∈ lower lowercase b :=
      fun hb => ((hlower.lower_alike _).mem_iff hmark).mp hb
    rw [heq] at hclean hnil hhead ⊢
    by_cases hproper : p ≠ [] ∧ p.all isAsciiDigit
    · have ha : ':' ∈ a := by
        obtain ⟨rfl, rfl⟩ | ⟨t, rfl, -⟩ | ⟨t, rfl, -⟩ := Fields.append_sep_eq_iff.mp heq
        · exact absurd hproper.2 hdigits
        · exact List.mem_append_right _ List.mem_cons_self
        · exact absurd (List.mem_append_right _ List.mem_cons_self) hcolon
      have hsome := (hostParts_port hhead hproper.1 hproper.2).trans
        (if_neg (List.ne_nil_of_mem ha))
      rw [hlower.normal_some hclean hnil hsome]
      exact normal_ne_of_colon hhead (hlowerColon ha)
    · rw [hlower.normal_some hclean hnil (hostParts_text hhead hp hproper)]
      exact normal_ne_of_colon hhead
        (hlowerColon (List.mem_append_right _ List.mem_cons_self))

/-! A host in brackets -/

theorem written_ne_nil_of_colon (h : ':' ∈ host) : written host port ≠ [] := by
  rw [written_of_colon h]
  exact List.cons_ne_nil _ _

theorem KeptParts.portAfter_eq (h : KeptParts lowercase host port) :
    portAfter ((port.map (':' :: ·)).getD []) = port := by
  cases port with
  | none => rfl
  | some q => exact if_neg (h.portClean q rfl).2

/-- Without a closing bracket inside, the host is read back, and so is a port other than that of
`https`. -/
theorem Lowercases.normal_colon_iff (hlower : Lowercases lowercase)
    (h : KeptParts lowercase host port) (hcolon : ':' ∈ host) (hclose : ']' ∉ host) :
    normal lowercase (written host port) = written host port ↔
      ∀ q, port = some q → q ≠ "443".toList := by
  have hparts : hostParts (written host port) = some (host, port) := by
    rw [written_of_colon hcolon, hostParts_bracket hclose, h.portAfter_eq]
  rw [hlower.normal_some h.clean_written (written_ne_nil_of_colon hcolon) hparts, h.lowered]
  cases port with
  | none => exact iff_of_true rfl nofun
  | some q =>
    by_cases hdefault : q = "443".toList
    · refine iff_of_false ?_ fun hne => hne q rfl hdefault
      rw [Option.filter_some, if_neg (by simpa using hdefault), written_of_colon hcolon,
        written_of_colon hcolon]
      simp
    · refine iff_of_true ?_ fun _ hq => Option.some.inj hq ▸ hdefault
      rw [Option.filter_some, if_pos (by simpa using hdefault)]

/-- With one, the part before it is the host that is read, and the rest has to read as its port. -/
theorem Lowercases.normal_close_iff (hlower : Lowercases lowercase) {a r : List Char}
    (h : KeptParts lowercase (a ++ ']' :: r) port) (hcolon : ':' ∈ a ++ ']' :: r) (ha : ']' ∉ a) :
    normal lowercase (written (a ++ ']' :: r) port) = written (a ++ ']' :: r) port ↔
      (∃ r', r = ':' :: r') ∧ ':' ∈ a := by
  have hwritten := @written_of_colon _ port hcolon
  generalize (port.map (':' :: ·)).getD [] = tail at hwritten
  rw [List.append_assoc, List.cons_append] at hwritten
  have hparts : hostParts (written (a ++ ']' :: r) port) = some (a, portAfter (r ++ ']' :: tail)) := by
    rw [hwritten, hostParts_bracket ha]
  have hlowered := (hlower.lower_append_iff.mp h.lowered).1
  rw [hlower.normal_some h.clean_written (written_ne_nil_of_colon hcolon) hparts, hlowered, hwritten]
  by_cases hr : ∃ r', r = ':' :: r'
  · rw [and_iff_right hr]
    obtain ⟨r', rfl⟩ := hr
    have hport : (portAfter (':' :: r' ++ ']' :: tail)).filter (· ≠ "443".toList) =
        some (r' ++ ']' :: tail) := by
      have hne : r' ++ ']' :: tail ≠ "443".toList := by
        intro heq
        have hmem : ']' ∈ "443".toList := heq ▸ List.mem_append_right r' List.mem_cons_self
        exact absurd hmem (by decide)
      rw [List.cons_append, portAfter, if_neg (by simp), Option.filter_some,
        if_pos (decide_eq_true hne)]
    rw [hport]
    by_cases hcolonA : ':' ∈ a
    · rw [written_of_colon hcolonA]
      exact iff_of_true rfl hcolonA
    · refine iff_of_false (fun heq => ?_) hcolonA
      have hlength := congrArg List.length heq
      rw [written_some hcolonA] at hlength
      simp only [List.length_append, List.length_cons] at hlength
      omega
  · refine iff_of_false (fun heq => ?_) fun hand => hr hand.1
    have hport : portAfter (r ++ ']' :: tail) = none := by
      cases r with
      | nil => rfl
      | cons c r => exact portAfter_other fun hc => hr ⟨r, by rw [hc]⟩
    rw [hport, Option.filter_none] at heq
    have hlength := congrArg List.length heq
    have hshort := length_written_none a
    simp only [List.length_append, List.length_cons] at hlength
    omega

/-! An address without its closing bracket -/

/-- The text after a bracket is closed when it reads as the port that is written. -/
theorem filter_portAfter_iff (after : List Char) :
    (((portAfter after).filter (· ≠ "443".toList)).map (':' :: ·)).getD [] = after ↔
      after = [] ∨ ∃ q, after = ':' :: q ∧ q ≠ [] ∧ q ≠ "443".toList := by
  cases after with
  | nil => simp [portAfter]
  | cons c s =>
    by_cases hc : c = ':'
    · subst hc
      by_cases hs : s = []
      · simp [portAfter, hs]
      · by_cases hdefault : s = "443".toList
        · rw [portAfter, if_neg hs, Option.filter_some, if_neg (by simpa using hdefault)]
          simpa using fun _ => hdefault
        · rw [portAfter, if_neg hs, Option.filter_some, if_pos (by simpa using hdefault)]
          simpa [hs] using hdefault
    · rw [portAfter_other hc]
      simp [hc]

theorem Lowercases.normal_open_iff (hlower : Lowercases lowercase) {t q : List Char}
    (h : KeptParts lowercase ('[' :: t) (some q)) (hcolon : ':' ∉ '[' :: t)
    (hlast : ∀ c, q.getLast? = some c → isWhitespace c = false) :
    normal lowercase (written ('[' :: t) (some q)) = written ('[' :: t) (some q) ↔
      PortReadsBack lowercase q := by
  have hclose : ']' ∉ '[' :: t := fun hmem => (h.bracket hmem).1 rfl
  have hclean := h.clean_written
  have hmark : IsMark ':' := isMark_of_mem (by decide)
  rw [written_some hcolon, List.cons_append] at hclean ⊢
  rw [PortReadsBack, and_iff_right hlast]
  cases hsplit : splitFirst ']' q with
  | none =>
    have hnot : ']' ∉ t ++ ':' :: q := by
      intro hmem
      rcases List.mem_append.mp hmem with hmem | hmem
      · exact hclose (List.mem_cons_of_mem _ hmem)
      · exact (List.mem_cons.mp hmem).elim (by decide) (splitFirst_eq_none.mp hsplit)
    rw [hlower.normal_none hclean (List.cons_ne_nil _ _) (hostParts_open hnot), ← List.cons_append,
      hlower.lower_append_iff, and_iff_right h.lowered]
    exact hlower.lower_cons_mark hmark
  | some parts =>
    obtain ⟨a, after⟩ := parts
    obtain ⟨rfl, ha⟩ := splitFirst_eq_some.mp hsplit
    have hjoin : t ++ ':' :: (a ++ ']' :: after) = t ++ ':' :: a ++ ']' :: after := by simp
    have haddress : ']' ∉ t ++ ':' :: a := by
      intro hmem
      rcases List.mem_append.mp hmem with hmem | hmem
      · exact hclose (List.mem_cons_of_mem _ hmem)
      · exact (List.mem_cons.mp hmem).elim (by decide) ha
    have halike := hlower.lower_alike (t ++ ':' :: a)
    have hcolon' : ':' ∈ lower lowercase (t ++ ':' :: a) :=
      (halike.mem_iff hmark).mp (List.mem_append_right _ List.mem_cons_self)
    have haddress' : ']' ∉ lower lowercase (t ++ ':' :: a) := fun hmem =>
      haddress ((halike.mem_iff (isMark_of_mem (by decide))).mpr hmem)
    have hfixed : lower lowercase (t ++ ':' :: a) = t ++ ':' :: a ↔ lower lowercase a = a := by
      rw [hlower.lower_append_iff, hlower.lower_cons_mark hmark]
      exact and_iff_right ((hlower.lower_cons_mark (isMark_of_mem (by decide))).mp h.lowered)
    rw [hjoin] at hclean ⊢
    rw [hlower.normal_some hclean (List.cons_ne_nil _ _) (hostParts_bracket haddress),
      written_of_colon hcolon', List.cons_inj_right]
    dsimp only
    rw [← filter_portAfter_iff, ← hfixed]
    constructor
    · intro heq
      obtain h | ⟨s, hs, -⟩ | ⟨s, hs, -⟩ := Fields.append_sep_eq_iff.mp heq
      · exact h
      · exact absurd (hs ▸ List.mem_append_right _ List.mem_cons_self) haddress
      · exact absurd (hs ▸ List.mem_append_right _ List.mem_cons_self) haddress'
    · rintro ⟨haddr, hafter⟩
      rw [haddr, hafter]

/-! Trimmed texts -/

/-- What reads back is trimmed. -/
theorem ReadsBack.trimmed (h : ReadsBack lowercase host port)
    (hport : ∀ q, port = some q → q ≠ []) : Trimmed (written host port) := by
  unfold ReadsBack at h
  by_cases hcolon : ':' ∈ host
  · rw [if_pos hcolon] at h
    rw [written_of_colon hcolon]
    refine trimmed_bracket fun c hc => ?_
    cases port with
    | none => cases hc
    | some q =>
      have hlast := last_append (s := []) (u := [':']) (hport q rfl)
      exact (h.2 q rfl).1 c (hlast.symm.trans hc)
  · rw [if_neg hcolon] at h
    cases port with
    | none =>
      rw [written_none hcolon]
      exact h
    | some q =>
      have hlast : (host ++ ':' :: q).getLast? = q.getLast? := by
        rw [← last_append (s := host) (u := [':']) (hport q rfl), List.append_assoc]
        rfl
      rw [written_some hcolon]
      dsimp only at h
      constructor
      · intro c hc
        cases host with
        | nil =>
          cases hc
          decide
        | cons d host =>
          cases hc
          split_ifs at h with hhead
          · cases hhead
            decide
          · exact h.1 c rfl
      · intro c hc
        rw [hlast] at hc
        split_ifs at h with hhead
        · exact h.1 c hc
        · exact digits_last h.2.1 hc

/-- A host in brackets is trimmed when the port behind it is. -/
theorem trimmed_written_of_colon (hcolon : ':' ∈ host)
    (h : ∀ q c, port = some q → (':' :: q).getLast? = some c → isWhitespace c = false) :
    Trimmed (written host port) := by
  rw [written_of_colon hcolon]
  refine trimmed_bracket fun c hc => ?_
  cases port with
  | none => cases hc
  | some q => exact h q c rfl hc

/-- What is its own normal form is trimmed. -/
theorem Lowercases.trimmed_of_normal (hlower : Lowercases lowercase) {y : List Char}
    (hclean : Clean y) (h : normal lowercase (trim y) = y) : Trimmed y := by
  have htrimmed := trimmed_trim y
  have hsub := trim_sublist y
  generalize trim y = z at h htrimmed hsub
  by_cases hnil : z = []
  · subst hnil
    obtain rfl : [] = y := h
    exact htrimmed
  have hcleanZ : Clean z := hclean.subset hsub.subset
  cases hparts : hostParts z with
  | none =>
    rw [hlower.normal_none hcleanZ hnil hparts] at h
    rw [← h]
    exact htrimmed.alike (hlower.lower_alike z)
  | some parts =>
    obtain ⟨a, q⟩ := parts
    rw [hlower.normal_some hcleanZ hnil hparts] at h
    have halike := hlower.lower_alike a
    have hmark : IsMark ':' := isMark_of_mem (by decide)
    have hopen : IsMark '[' := isMark_of_mem (by decide)
    obtain ⟨after, rfl, -, rfl⟩ | ⟨hhead, ⟨rfl, rfl⟩ | ⟨p, rfl, rfl, hne, hdigits, ha⟩⟩ :=
      hostParts_cases hparts
    · by_cases hcolon : ':' ∈ lower lowercase a
      · rw [← h]
        refine trimmed_written_of_colon hcolon fun p c hp hc => ?_
        obtain hnone | ⟨p', hafter, hp'⟩ := filter_cases (portAfter after) (· ≠ "443".toList)
        · rw [hnone] at hp
          cases hp
        · obtain rfl : p' = p := Option.some.inj (hp'.symm.trans hp)
          obtain ⟨rfl, -⟩ := portAfter_some hafter
          refine htrimmed.last c ?_
          have hlast := last_append (s := '[' :: a) (u := [']']) (List.cons_ne_nil ':' p')
          rw [← hc, ← hlast, List.append_assoc]
          rfl
      · -- the brackets are not written, so the text has one more of them than its normal form
        have hcount := hsub.count_le '['
        have hlowered := halike.count_eq hopen
        rw [← h] at hcount
        obtain hnone | ⟨p, hafter, hp⟩ := filter_cases (portAfter after) (· ≠ "443".toList)
        · rw [hnone, written_none hcolon] at hcount
          simp only [List.count_cons, List.count_append] at hcount
          simp at hcount
          omega
        · obtain ⟨rfl, -⟩ := portAfter_some hafter
          rw [hp, written_some hcolon] at hcount
          simp only [List.count_cons, List.count_append] at hcount
          simp at hcount
          omega
    · rw [← h, Option.filter_none]
      by_cases hcolon : ':' ∈ lower lowercase z
      · exact trimmed_written_of_colon hcolon nofun
      · rw [written_none hcolon]
        exact htrimmed.alike halike
    · have hlast : ∀ c, (':' :: p).getLast? = some c → isWhitespace c = false := by
        intro c hc
        rw [← List.singleton_append, List.getLast?_append_of_ne_nil _ hne] at hc
        exact digits_last hdigits hc
      obtain hnone | ⟨p', hp, hp'⟩ := filter_cases (some p) (· ≠ "443".toList)
      · rw [hnone] at h
        by_cases hcolon : ':' ∈ lower lowercase a
        · rw [← h]
          exact trimmed_written_of_colon hcolon nofun
        · rw [written_none hcolon] at h
          have hmem : ':' ∈ y := hsub.subset (List.mem_append_right _ List.mem_cons_self)
          exact absurd (h ▸ hmem) hcolon
      · cases hp
        rw [hp'] at h
        by_cases hcolon : ':' ∈ lower lowercase a
        · rw [← h]
          refine trimmed_written_of_colon hcolon fun q c hq hc => ?_
          cases hq
          exact hlast c hc
        · rw [written_some hcolon] at h
          have hwhole : Alike IsMark (a ++ ':' :: p) y :=
            h ▸ halike.append (Alike.refl (':' :: p))
          exact htrimmed.alike hwhole

/-- A trimmed host without a colon is its own normal form. -/
theorem Lowercases.normal_host (hlower : Lowercases lowercase) (h : KeptParts lowercase host none)
    (hcolon : ':' ∉ host) : normal lowercase host = host := by
  by_cases hnil : host = []
  · rw [hnil]
    rfl
  by_cases hhead : host.head? = some '['
  · have hclose : ']' ∉ host := fun hmem => (h.bracket hmem).1 hhead
    obtain ⟨t, rfl⟩ := List.head?_eq_some_iff.mp hhead
    have hopen := hostParts_open fun hmem => hclose (List.mem_cons_of_mem _ hmem)
    rw [hlower.normal_none h.clean hnil hopen, h.lowered]
  · rw [hlower.normal_some h.clean hnil (hostParts_plain hhead hcolon), h.lowered,
      Option.filter_none, written_none hcolon]

/-- A trimmed text in brackets. -/
theorem Lowercases.normal_brackets_iff (hlower : Lowercases lowercase)
    (h : KeptParts lowercase host port) (hcolon : ':' ∈ host)
    (htrimmed : Trimmed (written host port)) :
    normal lowercase (written host port) = written host port ↔ ReadsBack lowercase host port := by
  have hlast : ∀ q, port = some q → ∀ c, q.getLast? = some c → isWhitespace c = false := by
    rintro q rfl c hc
    refine htrimmed.last c ?_
    rw [written_of_colon hcolon, Option.map_some, Option.getD_some, ← hc,
      ← last_append (s := '[' :: host) (u := [']', ':']) (h.portClean q rfl).2, List.append_assoc]
    rfl
  unfold ReadsBack
  rw [if_pos hcolon]
  by_cases hclose : ']' ∈ host
  · obtain ⟨a, r, rfl, ha⟩ := List.eq_append_cons_of_mem hclose
    rw [hlower.normal_close_iff h hcolon ha]
    constructor
    · rintro ⟨⟨r', rfl⟩, hcolonA⟩
      exact ⟨fun _ => ⟨a, r', rfl, ha, hcolonA⟩, fun q hq => ⟨hlast q hq, fun hnot => absurd hclose hnot⟩⟩
    · rintro ⟨hparts, -⟩
      obtain ⟨a', r', heq, ha', hcolonA⟩ := hparts hclose
      obtain ⟨rfl, rfl⟩ | ⟨t, rfl, -⟩ | ⟨t, rfl, -⟩ := Fields.append_sep_eq_iff.mp heq
      · exact ⟨⟨r', rfl⟩, hcolonA⟩
      · exact absurd (List.mem_append_right _ List.mem_cons_self) ha'
      · exact absurd (List.mem_append_right _ List.mem_cons_self) ha
  · rw [hlower.normal_colon_iff h hcolon hclose]
    constructor
    · exact fun hport => ⟨fun hmem => absurd hmem hclose, fun q hq => ⟨hlast q hq, fun _ => hport q hq⟩⟩
    · exact fun hreads q hq => (hreads.2 q hq).2 hclose

/-- A trimmed text with a port behind a host without a colon. -/
theorem Lowercases.normal_behind_iff (hlower : Lowercases lowercase) {q : List Char}
    (h : KeptParts lowercase host (some q)) (hcolon : ':' ∉ host)
    (htrimmed : Trimmed (written host (some q))) :
    normal lowercase (written host (some q)) = written host (some q) ↔
      ReadsBack lowercase host (some q) := by
  have hne := (h.portClean q rfl).2
  rw [ReadsBack, if_neg hcolon]
  by_cases hhead : host.head? = some '['
  · rw [if_pos hhead]
    obtain ⟨t, rfl⟩ := List.head?_eq_some_iff.mp hhead
    refine hlower.normal_open_iff h hcolon fun c hc => htrimmed.last c ?_
    rw [written_some hcolon, ← hc, ← last_append (s := '[' :: t) (u := [':']) hne, List.append_assoc]
    rfl
  · have hclean := h.clean_written
    rw [if_neg hhead]
    rw [written_some hcolon] at hclean htrimmed ⊢
    have hhead' : (host ++ ':' :: q).head? ≠ some '[' := by
      cases host with
      | nil => simp
      | cons c host => exact hhead
    rw [hlower.normal_port_iff hcolon hhead' hne hclean h.lowered]
    refine (and_iff_right fun c hc => htrimmed.first c ?_).symm
    rw [List.head?_append, hc]
    rfl

/-- A host and a port, written out, are their own normal form when they read back. -/
theorem Lowercases.normal_written_iff (hlower : Lowercases lowercase)
    (h : KeptParts lowercase host port) :
    normal lowercase (trim (written host port)) = written host port ↔
      ReadsBack lowercase host port := by
  have hport : ∀ q, port = some q → q ≠ [] := fun q hq => (h.portClean q hq).2
  -- on both sides the text is trimmed
  refine (and_iff_right_of_imp (hlower.trimmed_of_normal h.clean_written)).symm.trans ?_
  refine Iff.trans ?_ (and_iff_right_of_imp (ReadsBack.trimmed · hport))
  refine and_congr_right fun htrimmed => ?_
  rw [htrimmed.trim_eq]
  by_cases hcolon : ':' ∈ host
  · exact hlower.normal_brackets_iff h hcolon htrimmed
  · cases port with
    | none =>
      rw [ReadsBack, if_neg hcolon]
      rw [written_none hcolon] at htrimmed ⊢
      exact iff_of_true (hlower.normal_host h hcolon) htrimmed
    | some q => exact hlower.normal_behind_iff h hcolon htrimmed

end ReadsBack

/-! ## Originators -/

section Originators

variable (lowercase : String → String)

/-- The normal form of an originator is stable: the originator has no host and port, or those that
are written read back. -/
def Stable (x : String) : Prop :=
  ∀ host port, trim x.toList ≠ [] → partsOf lowercase (trim x.toList) = some (host, port) →
    ReadsBack lowercase host port

variable {lowercase}

theorem keptPort_some {scheme : String} {port : Option (List Char)} {q : List Char}
    (h : keptPort scheme port = some q) : port = some q :=
  (Option.filter_eq_some_iff.mp h).1

theorem hostParts_of_parse {url host : List Char} {scheme : String} {port : Option (List Char)}
    (h : parseUrlParts lowercase url = some (scheme, host, port)) :
    ∃ hostPort, Clean hostPort ∧ hostParts hostPort = some (host, port) := by
  cases hsplit : splitAt "://".toList url with
  | none =>
    rw [parseUrlParts, hsplit] at h
    cases h
  | some parts =>
    rw [parseUrlParts_eq hsplit] at h
    split at h
    · cases h
    · obtain ⟨⟨a, p⟩, hparts, heq⟩ := Option.map_eq_some_iff.mp h
      cases heq
      exact ⟨_, clean_hostPortOf _, hparts⟩

/-- The host and the port of an originator are as the parts of a text have to be. -/
theorem Lowercases.keptParts (hlower : Lowercases lowercase) {z host : List Char}
    {port : Option (List Char)} (h : partsOf lowercase z = some (host, port)) :
    KeptParts lowercase host port := by
  obtain ⟨⟨scheme, a, p⟩, hparse, heq⟩ := Option.map_eq_some_iff.mp h
  obtain ⟨rfl, rfl⟩ := Prod.mk.inj heq
  obtain ⟨hostPort, hclean, hparts⟩ := hostParts_of_parse hparse
  have halike := hlower.lower_alike a
  have hcleanHost : Clean a → Clean (lower lowercase a) := fun ha c hc hmem =>
    ha c hc ((halike.mem_iff (Clean.isMark hc)).mpr hmem)
  have hclose : IsMark ']' := isMark_of_mem (by decide)
  have hopen : IsMark '[' := isMark_of_mem (by decide)
  obtain ⟨after, rfl, ha, rfl⟩ | ⟨hhead, ⟨rfl, rfl⟩ | ⟨q, rfl, rfl, hne, hdigits, ha⟩⟩ :=
    hostParts_cases hparts
  · refine ⟨hlower.lower_lower a, ?_, ?_, ?_⟩
    · exact hcleanHost (hclean.subset fun c hc =>
        List.mem_cons_of_mem _ (List.mem_append_left _ hc))
    · intro q hq
      obtain ⟨rfl, hne⟩ := portAfter_some (keptPort_some hq)
      exact ⟨hclean.subset fun c hc => List.mem_cons_of_mem _ (List.mem_append_right _
        (List.mem_cons_of_mem _ (List.mem_cons_of_mem _ hc))), hne⟩
    · exact fun hmem => absurd ((halike.mem_iff hclose).mpr hmem) ha
  · refine ⟨hlower.lower_lower _, hcleanHost hclean, fun q hq => ?_, fun _ => ⟨?_, fun q hq => ?_⟩⟩
    · cases keptPort_some hq
    · rwa [Ne, ← halike.head?_iff hopen]
    · cases keptPort_some hq
  · refine ⟨hlower.lower_lower a, ?_, fun p hp => ?_, fun _ => ⟨?_, fun p hp => ?_⟩⟩
    · exact hcleanHost (hclean.subset fun c hc => List.mem_append_left _ hc)
    · cases keptPort_some hp
      exact ⟨hclean.subset fun c hc => List.mem_append_right _ (List.mem_cons_of_mem _ hc), hne⟩
    · obtain ⟨c, a, rfl⟩ := List.exists_cons_of_ne_nil ha
      rw [Ne, ← halike.head?_iff hopen]
      exact hhead
    · cases keptPort_some hp
      exact hdigits

/-- An originator that is not parsed is lower cased, and is not parsed again. -/
theorem Lowercases.normal_of_none (hlower : Lowercases lowercase) {z : List Char} (hz : Trimmed z)
    (hne : z ≠ []) (h : partsOf lowercase z = none) :
    normal lowercase (trim (normal lowercase z)) = normal lowercase z := by
  have hlowered : normal lowercase z = lower lowercase z := by rw [normal, if_neg hne, h]
  have halike := hlower.lower_alike z
  have hcandidate : Alike IsMark (candidate lowercase z) (candidate lowercase (lower lowercase z)) := by
    have hsame : lowercase (String.ofList (lower lowercase z)) = lowercase (String.ofList z) := by
      rw [lower, String.ofList_toList, hlower.idempotent]
    unfold candidate
    rw [hsame]
    split
    · exact halike
    · exact (Alike.refl _).append halike
  have hnone : partsOf lowercase (lower lowercase z) = none := by
    rw [partsOf, Option.map_eq_none_iff] at h ⊢
    exact parseUrlParts_none_alike hcandidate h
  have hne' : lower lowercase z ≠ [] := fun hnil => hne (halike.eq_nil_iff.mpr hnil)
  rw [hlowered, (hz.alike halike).trim_eq, normal, if_neg hne', hnone]
  exact hlower.lower_lower z

theorem Lowercases.idempotent_iff (hlower : Lowercases lowercase) (x : String) :
    normalizeOriginator lowercase (normalizeOriginator lowercase x) =
      normalizeOriginator lowercase x ↔ Stable lowercase x := by
  rw [← String.toList_inj, normalizeOriginator_eq, normalizeOriginator_eq]
  unfold Stable
  have htrimmed := trimmed_trim x.toList
  generalize trim x.toList = z at htrimmed
  by_cases hnil : z = []
  · subst hnil
    exact iff_of_true rfl fun _ _ hne => absurd rfl hne
  cases hparts : partsOf lowercase z with
  | none => exact iff_of_true (hlower.normal_of_none htrimmed hnil hparts) nofun
  | some parts =>
    have hwritten : normal lowercase z = written parts.1 parts.2 := by
      rw [normal, if_neg hnil, hparts]
    rw [hwritten, hlower.normal_written_iff (hlower.keptParts hparts)]
    constructor
    · rintro h _ _ _ heq
      cases heq
      exact h
    · exact fun h => h _ _ hnil rfl

end Originators

/-! ## Admin recognition -/

/-- An admin is recognized through normal forms on both sides. -/
theorem isAdmin_normalized_iff {kit : Kit} {config : PermissionsManagerConfig} {x admin : String}
    (hx : normalizeOriginator kit.lowercase (normalizeOriginator kit.lowercase x) =
      normalizeOriginator kit.lowercase x)
    (hadmin : normalizeOriginator kit.lowercase (normalizeOriginator kit.lowercase admin) =
      normalizeOriginator kit.lowercase admin) :
    (Manager.new kit admin config).isAdmin kit (normalizeOriginator kit.lowercase x) ↔
      normalizeOriginator kit.lowercase x ≠ "" ∧
        normalizeOriginator kit.lowercase x = normalizeOriginator kit.lowercase admin := by
  have hstored : normalizeOriginator kit.lowercase (Manager.new kit admin config).adminOriginator =
      normalizeOriginator kit.lowercase admin := by
    unfold Manager.new
    dsimp only
    split
    · rfl
    · exact hadmin
  rw [Manager.isAdmin, isAdminOriginator, hx, hstored, decide_eq_true_eq]
  constructor
  · exact fun h => ⟨h.1, h.2.2⟩
  · exact fun h => ⟨h.1, h.2 ▸ h.1, h.2⟩

/-- Normalization is idempotent on an originator and on the admin's, and the check recognizes the
admin by the normal forms, when both are stable and only then. -/
theorem normalization_consistent_iff (kit : Kit) (hlower : Lowercases kit.lowercase)
    (config : PermissionsManagerConfig) (x admin : String) :
    (normalizeOriginator kit.lowercase (normalizeOriginator kit.lowercase x) =
          normalizeOriginator kit.lowercase x ∧
        normalizeOriginator kit.lowercase (normalizeOriginator kit.lowercase admin) =
          normalizeOriginator kit.lowercase admin ∧
        ((Manager.new kit admin config).isAdmin kit (normalizeOriginator kit.lowercase x) ↔
          normalizeOriginator kit.lowercase x ≠ "" ∧
            normalizeOriginator kit.lowercase x = normalizeOriginator kit.lowercase admin)) ↔
      Stable kit.lowercase x ∧ Stable kit.lowercase admin := by
  rw [← hlower.idempotent_iff, ← hlower.idempotent_iff]
  constructor
  · exact fun ⟨hx, hadmin, _⟩ => ⟨hx, hadmin⟩
  · exact fun ⟨hx, hadmin⟩ => ⟨hx, hadmin, isAdmin_normalized_iff hx hadmin⟩

section ToLower

/-- Marks are not letters. -/
theorem IsMark.toNat {c : Char} (h : IsMark c) :
    (c.toNat < 0x41 ∨ 0x5a < c.toNat) ∧ (c.toNat < 0x61 ∨ 0x7a < c.toNat) := by
  obtain h | h | h := h
  · rcases show c = ':' ∨ c = '/' ∨ c = '?' ∨ c = '#' ∨ c = '@' ∨ c = '[' ∨ c = ']' by
      simpa using h with rfl | rfl | rfl | rfl | rfl | rfl | rfl <;> decide
  · rw [isAsciiDigit, Bool.and_eq_true, decide_eq_true_eq, decide_eq_true_eq] at h
    have hhigh : c.toNat ≤ 0x39 := h.2
    omega
  · simp only [isWhitespace, Bool.or_eq_true, Bool.and_eq_true, decide_eq_true_eq,
      List.contains_eq_mem, List.mem_cons, List.not_mem_nil, or_false] at h
    omega

theorem toLower_cases (c : Char) : c.toLower = c ∨
    0x41 ≤ c.toNat ∧ c.toNat ≤ 0x5a ∧ c.toLower.toNat = c.toNat + 0x20 := by
  unfold Char.toLower
  split
  · next h =>
    have hlow : 0x41 ≤ c.toNat := h.1
    have hhigh : c.toNat ≤ 0x5a := h.2
    refine Or.inr ⟨hlow, hhigh, ?_⟩
    change (c.val + 0x20).toNat = c.val.toNat + 0x20
    have hval : c.val.toNat ≤ 0x5a := hhigh
    rw [UInt32.toNat_add]
    exact Nat.mod_eq_of_lt (by change c.val.toNat + 0x20 < 2 ^ 32; omega)
  · exact Or.inl rfl

theorem toLower_toLower (c : Char) : c.toLower.toLower = c.toLower := by
  obtain h | ⟨hlow, -, hnat⟩ := toLower_cases c
  · rw [h, h]
  · obtain h | ⟨-, hhigh, -⟩ := toLower_cases c.toLower
    · exact h
    · omega

theorem IsMark.toLower {c : Char} (h : IsMark c) : c.toLower = c := by
  have hbounds := h.toNat
  obtain heq | ⟨hlow, hhigh, -⟩ := toLower_cases c
  · exact heq
  · omega

theorem isMark_of_toLower {c : Char} (h : IsMark c.toLower) : IsMark c := by
  have hbounds := h.toNat
  obtain heq | ⟨hlow, hhigh, hnat⟩ := toLower_cases c
  · exact heq ▸ h
  · omega

theorem alike_map_toLower (s : List Char) : Alike IsMark s (s.map Char.toLower) := by
  induction s with
  | nil => exact .nil
  | cons c s ih =>
    by_cases hc : IsMark c
    · rw [List.map_cons, hc.toLower]
      exact .mark hc ih
    · have hpiece : ∀ d ∈ [c.toLower], ¬IsMark d := fun d hd hmark =>
        hc (isMark_of_toLower (List.mem_singleton.mp hd ▸ hmark))
      exact .text hc (List.cons_ne_nil _ _) hpiece ih

/-- The lower case of ASCII letters is as documented. -/
theorem lowercases_sampleKit : Lowercases sampleKit.lowercase where
  alike s := by
    rw [sampleKit, String.toList_ofList]
    exact alike_map_toLower s.toList
  idempotent s := by
    simp only [sampleKit, String.toList_ofList, List.map_map, Function.comp_def, toLower_toLower]
  fixed s := by
    have hfixed : s.toList.map Char.toLower = s.toList ↔ ∀ c ∈ s.toList, c.toLower = c := by
      generalize s.toList = cs
      induction cs with
      | nil => simp
      | cons c cs ih => rw [List.map_cons, List.cons.injEq, ih, List.forall_mem_cons]
    rw [← String.toList_inj, sampleKit, String.toList_ofList, hfixed]
    simp [← String.toList_inj]
  https := by decide +kernel

end ToLower

/-- A host with letters of both cases, a port and a path. -/
theorem normalization_consistent_port :
    let x := " https://App.Example:8080/wallet"
    normalizeOriginator sampleKit.lowercase x = "app.example:8080" ∧
      normalizeOriginator sampleKit.lowercase (normalizeOriginator sampleKit.lowercase x) =
        normalizeOriginator sampleKit.lowercase x ∧
      (Manager.new sampleKit "App.Example:8080" {}).isAdmin sampleKit
        (normalizeOriginator sampleKit.lowercase x) := by
  have hstable : ∀ x, normalizeOriginator sampleKit.lowercase
      (normalizeOriginator sampleKit.lowercase x) = normalizeOriginator sampleKit.lowercase x →
        Stable sampleKit.lowercase x := fun x => (lowercases_sampleKit.idempotent_iff x).mp
  obtain ⟨hidempotent, -, hadmin⟩ := (normalization_consistent_iff sampleKit lowercases_sampleKit {}
    " https://App.Example:8080/wallet" "App.Example:8080").mpr
      ⟨hstable _ (by decide +kernel), hstable _ (by decide +kernel)⟩
  exact ⟨by decide +kernel, hidempotent, hadmin.mpr (by decide +kernel)⟩

/-- An `http` originator on port 443 loses its port the second time, and is then the admin. -/
theorem normalization_not_consistent :
    ¬∀ (kit : Kit) (config : PermissionsManagerConfig) (x admin : String),
      Lowercases kit.lowercase →
        normalizeOriginator kit.lowercase (normalizeOriginator kit.lowercase x) =
            normalizeOriginator kit.lowercase x ∧
          ((Manager.new kit admin config).isAdmin kit (normalizeOriginator kit.lowercase x) ↔
            normalizeOriginator kit.lowercase x ≠ "" ∧
              normalizeOriginator kit.lowercase x = normalizeOriginator kit.lowercase admin) := by
  intro h
  have hadmin := (h sampleKit {} "http://admin.example:443" "admin.example" lowercases_sampleKit).2
  have hrecognized : (Manager.new sampleKit "admin.example" {}).isAdmin sampleKit
      (normalizeOriginator sampleKit.lowercase "http://admin.example:443") := by
    decide +kernel
  exact absurd (hadmin.mp hrecognized).2 (by decide +kernel)

end WalletToolbox.Permissions
