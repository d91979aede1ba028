import BlockDoc.Proofs.Decimal.Numeral
import BlockDoc.Proofs.Text.Trim

/-!
# Reading decimal numerals

Reading follows the grammar of numerals. A text that spells a numeral is read as the number of that
numeral, unless the number is out of range, and no other text is read as a finite number.

Each reader of a part has two lemmas. One says that it takes the characters of that part off, if
what follows cannot belong to the part; the other says that whatever it takes off are the characters
of some part.

## Main results

* `Decimal.ofText?_of_isSpelledBy` — a text that spells a numeral is read as its number
* `Decimal.exists_isSpelledBy_of_ofText?` — a text that is read as a finite number spells a numeral
-/

namespace BlockDoc

-- ════════════════════════════════════════════════════════════════════════
-- Reading the parts
-- ════════════════════════════════════════════════════════════════════════

section Split

variable {α β : Type} {R : α → β → Prop}

theorem forall₂_append_left {as bs : List α} {cs : List β} (h : List.Forall₂ R (as ++ bs) cs) :
    ∃ cs₁ cs₂, List.Forall₂ R as cs₁ ∧ List.Forall₂ R bs cs₂ ∧ cs = cs₁ ++ cs₂ := by
  induction as generalizing cs with
  | nil => exact ⟨[], cs, .nil, h, rfl⟩
  | cons a as ih =>
    obtain ⟨c, rest, hc, hrest, rfl⟩ := List.forall₂_cons_left_iff.mp h
    obtain ⟨cs₁, cs₂, h₁, h₂, rfl⟩ := ih hrest
    exact ⟨c :: cs₁, cs₂, .cons hc h₁, h₂, rfl⟩

theorem exists_of_forall₂_of_mem {as : List α} {bs : List β} (h : List.Forall₂ R as bs) {b : β}
    (hb : b ∈ bs) : ∃ a ∈ as, R a b := by
  induction h with
  | nil => cases hb
  | cons hR _ ih =>
    rcases List.mem_cons.mp hb with rfl | hb
    · exact ⟨_, List.mem_cons_self .., hR⟩
    · obtain ⟨a, ha, hab⟩ := ih hb
      exact ⟨a, List.mem_cons_of_mem _ ha, hab⟩

/-- The first of the characters stands for the first of the symbols. -/
theorem exists_head?_of_forall₂ {as : List α} {cs : List β} (h : List.Forall₂ R as cs) {c : β}
    (hc : c ∈ cs.head?) : ∃ a ∈ as.head?, R a c := by
  cases h with
  | nil => cases hc
  | cons hR _ =>
    obtain rfl := Option.some.inj hc
    exact ⟨_, rfl, hR⟩

end Split

namespace Decimal

open Numeral

/-- Plain characters of symbols. -/
abbrev ArePlain (ss : List Symbol) (cs : List Char) : Prop :=
  List.Forall₂ Symbol.IsPlain ss cs

theorem takeDigits_of_arePlain {ds : List (Fin 10)} {cs rest : List Char}
    (h : ArePlain (ds.map .digit) cs) (hrest : ∀ c ∈ rest.head?, Text.asciiDigit? c = none) :
    takeDigits (cs ++ rest) = (ds.map (·.val), rest) := by
  induction ds generalizing cs with
  | nil =>
    cases h
    rcases rest with _ | ⟨c, rest⟩
    · rfl
    · simp only [List.nil_append, takeDigits, hrest c rfl, List.map_nil]
  | cons d ds ih =>
    obtain ⟨c, cs, hc, hcs, rfl⟩ := List.forall₂_cons_left_iff.mp h
    have hdigit : Text.asciiDigit? c = some d.val := hc
    simp only [List.cons_append, takeDigits, hdigit, ih hcs, List.map_cons]

theorem exists_takeDigits (cs : List Char) :
    ∃ (ds : List (Fin 10)) (chars : List Char), ArePlain (ds.map .digit) chars ∧
      cs = chars ++ (takeDigits cs).2 ∧ (takeDigits cs).1 = ds.map (·.val) := by
  induction cs with
  | nil => exact ⟨[], [], .nil, rfl, rfl⟩
  | cons c cs ih =>
    unfold takeDigits
    split
    · next d hd =>
      obtain ⟨ds, chars, hplain, hcs, hds⟩ := ih
      refine ⟨⟨d, Text.asciiDigit?_lt hd⟩ :: ds, c :: chars, .cons hd hplain, ?_, ?_⟩
      · rw [List.cons_append, ← hcs]
      · rw [List.map_cons, hds]
    · exact ⟨[], [], .nil, rfl, rfl⟩

theorem takeSign_of_arePlain {sign : Option Bool} {cs rest : List Char}
    (h : ArePlain (signSymbols sign) cs) (hrest : ∀ c ∈ rest.head?, c ≠ '+' ∧ c ≠ '-') :
    takeSign (cs ++ rest) = (sign.getD false, rest) := by
  rcases sign with _ | negative
  · cases h
    rcases rest with _ | ⟨c, rest⟩
    · rfl
    · obtain ⟨hplus, hminus⟩ := hrest c rfl
      unfold takeSign
      split
      · next heq => exact absurd (List.cons.inj heq).1 hplus
      · next heq => exact absurd (List.cons.inj heq).1 hminus
      · rfl
  · obtain ⟨c, cs, hc, hcs, rfl⟩ := List.forall₂_cons_left_iff.mp h
    cases hcs
    cases negative with
    | false => obtain rfl : c = '+' := hc; rfl
    | true => obtain rfl : c = '-' := hc; rfl

theorem exists_takeSign (cs : List Char) :
    ∃ sign chars, ArePlain (signSymbols sign) chars ∧ cs = chars ++ (takeSign cs).2 ∧
      (takeSign cs).1 = sign.getD false := by
  unfold takeSign
  split
  · exact ⟨some false, ['+'], .cons rfl .nil, rfl, rfl⟩
  · exact ⟨some true, ['-'], .cons rfl .nil, rfl, rfl⟩
  · exact ⟨none, [], .nil, rfl, rfl⟩

theorem takeFraction_of_arePlain {fraction : Option (List (Fin 10))} {cs rest : List Char}
    (h : ArePlain (fractionSymbols fraction) cs)
    (hrest : ∀ c ∈ rest.head?, c ≠ '.' ∧ Text.asciiDigit? c = none) :
    takeFraction (cs ++ rest) = ((fraction.getD []).map (·.val), rest) := by
  rcases fraction with _ | ds
  · cases h
    unfold takeFraction
    split
    · next heq => exact absurd rfl (hrest '.' (by rw [← List.nil_append rest, heq]; rfl)).1
    · rfl
  · obtain ⟨c, cs, hc, hcs, rfl⟩ := List.forall₂_cons_left_iff.mp h
    obtain rfl : c = '.' := hc
    exact takeDigits_of_arePlain hcs fun c hc => (hrest c hc).2

theorem exists_takeFraction (cs : List Char) :
    ∃ fraction chars, ArePlain (fractionSymbols fraction) chars ∧
      cs = chars ++ (takeFraction cs).2 ∧
        (takeFraction cs).1 = (fraction.getD []).map (·.val) := by
  unfold takeFraction
  split
  · next cs =>
    obtain ⟨ds, chars, hplain, hcs, hds⟩ := exists_takeDigits cs
    refine ⟨some ds, '.' :: chars, .cons rfl hplain, ?_, hds⟩
    rw [List.cons_append, ← hcs]
  · exact ⟨none, [], .nil, rfl, rfl⟩

/-- No digit is a sign. -/
theorem ne_of_isPlain_digit {d : Fin 10} {c x : Char} (hx : Text.asciiDigit? x = none)
    (h : (Symbol.digit d).IsPlain c) : c ≠ x := by
  rintro rfl
  have hdigit : Text.asciiDigit? c = some d.val := h
  rw [hx] at hdigit
  cases hdigit

theorem readExponent?_of_arePlain {exponent : Option (Option Bool × List (Fin 10))}
    {cs : List Char} (hdigits : ∀ e ∈ exponent, e.2 ≠ [])
    (h : ArePlain (exponentSymbols exponent) cs) :
    readExponent? cs = some (exponentValue exponent) := by
  rcases exponent with _ | ⟨sign, ds⟩
  · cases h
    rfl
  · obtain ⟨c, rest, hc, hrest, rfl⟩ := List.forall₂_cons_left_iff.mp h
    obtain ⟨signs, digits, hsigns, hds, rfl⟩ := forall₂_append_left hrest
    have hne : ds ≠ [] := hdigits _ rfl
    have hhead : ∀ c ∈ digits.head?, c ≠ '+' ∧ c ≠ '-' := by
      intro c hc
      obtain ⟨s, hs, hplain⟩ := exists_head?_of_forall₂ hds hc
      obtain ⟨d, -, rfl⟩ := List.mem_map.mp (List.mem_of_mem_head? hs)
      exact ⟨ne_of_isPlain_digit (by decide) hplain, ne_of_isPlain_digit (by decide) hplain⟩
    have hall : takeDigits (digits ++ []) = (ds.map (·.val), []) :=
      takeDigits_of_arePlain hds nofun
    rw [List.append_nil] at hall
    have hmark : c = 'e' ∨ c = 'E' := hc
    simp only [readExponent?, if_pos hmark, takeSign_of_arePlain hsigns hhead, hall]
    obtain ⟨d, ds, rfl⟩ := List.exists_cons_of_ne_nil hne
    rfl

theorem exists_of_readExponent? {cs : List Char} {e : Int} (h : readExponent? cs = some e) :
    ∃ exponent, (∀ e ∈ exponent, e.2 ≠ []) ∧ ArePlain (exponentSymbols exponent) cs ∧
      e = exponentValue exponent := by
  rcases cs with _ | ⟨c, cs⟩
  · obtain rfl := Option.some.inj h
    exact ⟨none, nofun, .nil, rfl⟩
  · by_cases hmark : c = 'e' ∨ c = 'E'
    · simp only [readExponent?, if_pos hmark] at h
      obtain ⟨sign, signs, hsigns, hcs, hsign⟩ := exists_takeSign cs
      obtain ⟨ds, digits, hds, hrest, hvalues⟩ := exists_takeDigits (takeSign cs).2
      split at h
      · cases h
      · next hne heq =>
        obtain rfl := Option.some.inj h
        rw [heq] at hrest hvalues
        dsimp only at hrest hvalues
        refine ⟨some (sign, ds), ?_, .cons hmark ?_, ?_⟩
        · rintro e he hnil
          obtain rfl := Option.some.inj he
          exact hne (hvalues.trans (congrArg (List.map _) hnil))
        · rw [hcs, hrest, List.append_nil]
          exact List.rel_append hsigns hds
        · rw [hsign, hvalues]
          rfl
      · cases h
    · simp only [readExponent?, if_neg hmark] at h
      cases h

-- ════════════════════════════════════════════════════════════════════════
-- Reading numerals
-- ════════════════════════════════════════════════════════════════════════

theorem head?_exponentSymbols {exponent : Option (Option Bool × List (Fin 10))} {s : Symbol}
    (h : s ∈ (exponentSymbols exponent).head?) : s = .mark := by
  rcases exponent with _ | ⟨sign, ds⟩
  · cases h
  · exact (Option.some.inj h).symm

/-- What follows the digits before the point begins with a point or with the mark. -/
theorem head?_tail_symbols {fraction : Option (List (Fin 10))}
    {exponent : Option (Option Bool × List (Fin 10))} {s : Symbol}
    (h : s ∈ (fractionSymbols fraction ++ exponentSymbols exponent).head?) :
    s = .point ∨ s = .mark := by
  rcases fraction with _ | ds
  · exact .inr (head?_exponentSymbols h)
  · exact .inl (Option.some.inj h).symm

theorem asciiDigit?_of_isPlain {s : Symbol} {c : Char} (hs : s = .point ∨ s = .mark)
    (h : s.IsPlain c) : Text.asciiDigit? c = none := by
  rcases hs with rfl | rfl
  · obtain rfl : c = '.' := h
    decide
  · rcases h with rfl | rfl <;> decide

theorem readMagnitude?_of_arePlain (n : Numeral) (negative : Bool) {cs : List Char}
    (h : ArePlain n.unsignedSymbols cs) :
    readMagnitude? negative cs =
      some (.finite negative (digitsValue (n.whole ++ n.fraction.getD []))
        (exponentValue n.exponent - (n.fraction.getD []).length)) := by
  obtain ⟨whole, rest, hwhole, hrest, rfl⟩ := forall₂_append_left h
  obtain ⟨fraction, exponent, hfraction, hexponent, rfl⟩ := forall₂_append_left hrest
  have hafterWhole : ∀ c ∈ (fraction ++ exponent).head?, Text.asciiDigit? c = none := by
    intro c hc
    obtain ⟨s, hs, hplain⟩ := exists_head?_of_forall₂ hrest hc
    exact asciiDigit?_of_isPlain (head?_tail_symbols hs) hplain
  have hafterFraction : ∀ c ∈ exponent.head?, c ≠ '.' ∧ Text.asciiDigit? c = none := by
    intro c hc
    obtain ⟨s, hs, hplain⟩ := exists_head?_of_forall₂ hexponent hc
    obtain rfl := head?_exponentSymbols hs
    refine ⟨?_, asciiDigit?_of_isPlain (.inr rfl) hplain⟩
    rintro rfl
    rcases hplain with h | h <;> exact absurd h (by decide)
  have hdigit : ((n.whole.map (·.val)).isEmpty &&
      ((n.fraction.getD []).map (·.val)).isEmpty) = false := by
    rcases n.hasDigit with hne | hne <;> simp [hne]
  simp only [readMagnitude?, takeDigits_of_arePlain hwhole hafterWhole,
    takeFraction_of_arePlain hfraction hafterFraction, hdigit,
    readExponent?_of_arePlain n.exponentHasDigit hexponent, Option.map_some, ofDigits,
    digitsValue, List.map_append, List.length_map]
  rfl

theorem exists_of_readMagnitude? {negative : Bool} {cs : List Char} {d : Decimal}
    (h : readMagnitude? negative cs = some d) :
    ∃ n : Numeral, ArePlain n.unsignedSymbols cs ∧
      d = .finite negative (digitsValue (n.whole ++ n.fraction.getD []))
        (exponentValue n.exponent - (n.fraction.getD []).length) := by
  obtain ⟨whole, digits, hdigits, hcs, hwhole⟩ := exists_takeDigits cs
  obtain ⟨fraction, places, hplaces, hrest, hfraction⟩ := exists_takeFraction (takeDigits cs).2
  simp only [readMagnitude?] at h
  split at h
  · cases h
  · next hdigit =>
    obtain ⟨e, hexponent, rfl⟩ := Option.map_eq_some_iff.mp h
    obtain ⟨exponent, hdigits', hplain, rfl⟩ := exists_of_readExponent? hexponent
    have hne : whole ≠ [] ∨ fraction.getD [] ≠ [] := by
      by_contra hempty
      push Not at hempty
      rw [hwhole, hfraction, hempty.1, hempty.2] at hdigit
      exact hdigit rfl
    refine ⟨⟨none, whole, fraction, exponent, hne, hdigits'⟩, ?_, ?_⟩
    · rw [hcs, hrest]
      exact List.rel_append hdigits (List.rel_append hplaces hplain)
    · rw [ofDigits, hwhole, hfraction, List.length_map, ← List.map_append]
      rfl

/-- No name of a number begins with a digit or a point. -/
theorem readUnsigned?_of_head {negative : Bool} {c : Char} {cs : List Char}
    (h : c = '.' ∨ (Text.asciiDigit? c).isSome = true) :
    readUnsigned? negative (c :: cs) = readMagnitude? negative (c :: cs) := by
  have hlower : c.toLower ≠ 'i' ∧ c.toLower ≠ 'n' ∧ c.toLower ≠ 's' := by
    rcases h with rfl | h
    · decide
    · obtain ⟨d, hd⟩ := Option.isSome_iff_exists.mp h
      have hall : ∀ d : Fin 10, (Char.ofNat ('0'.toNat + d)).toLower ≠ 'i' ∧
          (Char.ofNat ('0'.toNat + d)).toLower ≠ 'n' ∧
            (Char.ofNat ('0'.toNat + d)).toLower ≠ 's' := by decide
      rw [Text.eq_ofNat_of_asciiDigit? hd]
      exact hall ⟨d, Text.asciiDigit?_lt hd⟩
  unfold readUnsigned?
  split
  · next heq => exact absurd (List.cons.inj heq).1 hlower.1
  · next heq => exact absurd (List.cons.inj heq).1 hlower.1
  · next heq => exact absurd (List.cons.inj heq).1 hlower.2.1
  · next heq => exact absurd (List.cons.inj heq).1 hlower.2.2
  · rfl

theorem exists_of_readUnsigned? {negative : Bool} {cs : List Char} {d : Decimal}
    (h : readUnsigned? negative cs = some d) (hd : d.isFinite = true) :
    readMagnitude? negative cs = some d := by
  unfold readUnsigned? at h
  split at h
  · obtain rfl := Option.some.inj h
    cases hd
  · obtain rfl := Option.some.inj h
    cases hd
  · obtain ⟨payload, -, rfl⟩ := Option.map_eq_some_iff.mp h
    cases hd
  · obtain ⟨payload, -, rfl⟩ := Option.map_eq_some_iff.mp h
    cases hd
  · exact h

/-- After its sign a numeral begins with a digit or with its point. -/
theorem exists_unsignedSymbols_eq_cons (n : Numeral) :
    ∃ s ss, n.unsignedSymbols = s :: ss ∧ (s = .point ∨ ∃ d, s = .digit d) := by
  rcases hwhole : n.whole with _ | ⟨d, ds⟩
  · rcases hfraction : n.fraction with _ | ds
    · rcases n.hasDigit with hne | hne
      · exact absurd hwhole hne
      · rw [hfraction] at hne
        exact absurd rfl hne
    · exact ⟨.point, _, by rw [unsignedSymbols, hwhole, hfraction]; rfl, .inl rfl⟩
  · exact ⟨.digit d, _, by rw [unsignedSymbols, hwhole]; rfl, .inr ⟨d, rfl⟩⟩

theorem readUnsigned?_of_arePlain (n : Numeral) (negative : Bool) {cs : List Char}
    (h : ArePlain n.unsignedSymbols cs) :
    readUnsigned? negative cs = readMagnitude? negative cs := by
  obtain ⟨s, ss, hsymbols, hs⟩ := exists_unsignedSymbols_eq_cons n
  rw [hsymbols] at h
  obtain ⟨c, cs, hc, -, rfl⟩ := List.forall₂_cons_left_iff.mp h
  refine readUnsigned?_of_head ?_
  rcases hs with rfl | ⟨d, rfl⟩
  · exact .inl hc
  · have hdigit : Text.asciiDigit? c = some d.val := hc
    exact .inr (by rw [hdigit]; rfl)

/-- A sign before a numeral is taken off, and nothing else is. -/
theorem takeSign_of_unsigned (n : Numeral) {signs cs : List Char}
    (hsigns : ArePlain (signSymbols n.sign) signs) (h : ArePlain n.unsignedSymbols cs) :
    takeSign (signs ++ cs) = (n.sign.getD false, cs) := by
  obtain ⟨s, ss, hsymbols, hs⟩ := exists_unsignedSymbols_eq_cons n
  refine takeSign_of_arePlain hsigns fun c hc => ?_
  obtain ⟨s', hs', hplain⟩ := exists_head?_of_forall₂ h hc
  rw [hsymbols] at hs'
  obtain rfl := Option.some.inj hs'
  rcases hs with rfl | ⟨d, rfl⟩
  · obtain rfl : c = '.' := hplain
    decide
  · exact ⟨ne_of_isPlain_digit (by decide) hplain, ne_of_isPlain_digit (by decide) hplain⟩

-- ════════════════════════════════════════════════════════════════════════
-- Reading texts
-- ════════════════════════════════════════════════════════════════════════

/-- The plain text of a numeral has one character for each of its symbols. -/
theorem arePlain_plainText {n : Numeral} {cs : List Char} (h : n.IsSpelledBy cs) :
    ArePlain n.symbols (plainText cs) := by
  obtain ⟨before, body, after, rfl, hbefore, hafter, hbody⟩ := h
  have hvisible : ∀ c ∈ body, Text.isBlank c = false := by
    intro c hc
    by_cases hunderscore : c = '_'
    · rw [hunderscore]
      decide
    · have hmem : c ∈ body.filter (· ≠ '_') := List.mem_filter.mpr ⟨hc, by simpa using hunderscore⟩
      obtain ⟨s, -, hs⟩ := exists_of_forall₂_of_mem hbody hmem
      exact hs.isBlank_eq_false
  rw [plainText, Text.trimChars_between hbefore hafter (Text.isTrimmed_of_forall hvisible),
    ArePlain, List.forall₂_map_right_iff]
  exact hbody.imp fun s c => (s.isPlain_asciiDigit c).mpr

/-- A text of which the plain text is a numeral spells that numeral. -/
theorem isSpelledBy_of_arePlain {n : Numeral} {cs : List Char}
    (h : ArePlain n.symbols (plainText cs)) : n.IsSpelledBy cs := by
  obtain ⟨before, after, hcs, hbefore, hafter⟩ := Text.exists_trimChars cs
  rw [plainText, ArePlain, List.forall₂_map_right_iff] at h
  exact ⟨before, _, after, hcs, hbefore, hafter,
    h.imp fun s c => (s.isPlain_asciiDigit c).mp⟩

/-- A text that spells a numeral is read as the number of the numeral, unless that is out of
range. -/
theorem ofChars?_of_isSpelledBy {n : Numeral} {cs : List Char} (h : n.IsSpelledBy cs) :
    ofChars? cs = (some n.toDecimal).filter isInRange := by
  obtain ⟨signs, rest, hsigns, hrest, hcs⟩ := forall₂_append_left (arePlain_plainText h)
  rw [ofChars?, hcs, takeSign_of_unsigned n hsigns hrest]
  simp only
  rw [readUnsigned?_of_arePlain n _ hrest, readMagnitude?_of_arePlain n _ hrest]
  rfl

/-- A text that is read as a finite number spells a numeral of that number. -/
theorem exists_isSpelledBy_of_ofChars? {cs : List Char} {d : Decimal} (h : ofChars? cs = some d)
    (hd : d.isFinite = true) :
    ∃ n : Numeral, n.IsSpelledBy cs ∧ n.toDecimal = d ∧ d.isInRange = true := by
  obtain ⟨sign, signs, hsigns, hcs, hsign⟩ := exists_takeSign (plainText cs)
  have hfilter : (readUnsigned? (takeSign (plainText cs)).1 (takeSign (plainText cs)).2).filter
      isInRange = some d := h
  obtain ⟨hread, hrange⟩ := Option.filter_eq_some_iff.mp hfilter
  obtain ⟨n, hplain, rfl⟩ := exists_of_readMagnitude? (exists_of_readUnsigned? hread hd)
  refine ⟨{ n with sign := sign }, isSpelledBy_of_arePlain ?_, ?_, hrange⟩
  · rw [hcs]
    exact List.rel_append hsigns hplain
  · rw [hsign]
    rfl

theorem ofText?_of_isSpelledBy {n : Numeral} {s : String} (h : n.IsSpelledBy s.toList)
    (hrange : n.toDecimal.isInRange = true) : ofText? s = some n.toDecimal := by
  rw [ofText?, ofChars?_of_isSpelledBy h, Option.filter_some, if_pos hrange]

theorem exists_isSpelledBy_of_ofText? {s : String} {d : Decimal} (h : ofText? s = some d)
    (hd : d.isFinite = true) :
    ∃ n : Numeral, n.IsSpelledBy s.toList ∧ n.toDecimal = d ∧ d.isInRange = true :=
  exists_isSpelledBy_of_ofChars? h hd

end Decimal

end BlockDoc
