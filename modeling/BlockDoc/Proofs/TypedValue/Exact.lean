import BlockDoc.Proofs.Decimal.Writing
import BlockDoc.Proofs.TypedValue.Mirror
import BlockDoc.Proofs.Validation.Breakdown

/-!
# Numbers are exact

What a number is given as depends on the value that its text denotes, and on nothing else: integral
values are given as the integer that they are, at any magnitude, and texts of one value, however
they are spelled, are given as the same datum. An integer that stands in place of a text is first
written and then read, and comes out as itself.

## Main definitions

* `Denotes` — the value of the text of a number

## Main results

* `TypedValue.numbers_exact` — integers are exact, and the spelling does not matter
-/

namespace BlockDoc

/-- A text spells a numeral of the given value, whose digits stand for powers of ten in range. -/
def Denotes (s : String) (q : ℚ) : Prop :=
  ∃ n : Numeral, n.IsSpelledBy s.toList ∧ n.toDecimal.isInRange = true ∧ n.value = q

/-- The texts that denote a value are those that are read as a number of that value. -/
theorem denotes_iff {s : String} {q : ℚ} :
    Denotes s q ↔ ∃ d, Decimal.ofText? s = some d ∧ d.value? = some q := by
  constructor
  · rintro ⟨n, hspelled, hrange, rfl⟩
    exact ⟨n.toDecimal, Decimal.ofText?_of_isSpelledBy hspelled hrange, n.value?_toDecimal⟩
  · rintro ⟨d, hread, hq⟩
    obtain ⟨n, hspelled, rfl, hrange⟩ :=
      Decimal.exists_isSpelledBy_of_ofText? hread (Decimal.isFinite_of_value? hq)
    rw [n.value?_toDecimal] at hq
    exact ⟨n, hspelled, hrange, Option.some.inj hq⟩

/-- Numbers of one value are given as the same datum. -/
theorem Decimal.toDatum?_congr {d d' : Decimal} {q : ℚ} (h : d.value? = some q)
    (h' : d'.value? = some q) : d.toDatum? = d'.toDatum? := by
  by_cases hint : ∃ n : Int, q = n
  · obtain ⟨n, rfl⟩ := hint
    rw [toDatum?_of_value? h, toDatum?_of_value? h']
  · push Not at hint
    have hne : q ≠ 0 := by exact_mod_cast hint 0
    rw [toDatum?_of_fraction h hint, toDatum?_of_fraction h' hint, toBinary64_congr h h' hne]

/-- A number is given as an integer if and only if its value is that integer. -/
theorem Decimal.toDatum?_eq_int_iff {d : Decimal} {q : ℚ} (h : d.value? = some q) {n : Int} :
    d.toDatum? = some (.int n) ↔ q = n := by
  constructor
  · intro hdatum
    by_cases hint : ∃ m : Int, q = m
    · obtain ⟨m, rfl⟩ := hint
      rw [toDatum?_of_value? h] at hdatum
      obtain rfl := Datum.int.inj (Option.some.inj hdatum)
      rfl
    · push Not at hint
      rw [toDatum?_of_fraction h hint] at hdatum
      split at hdatum <;> cases hdatum
  · rintro rfl
    exact toDatum?_of_value? h

namespace TypedValue

/-- The plain data of a number are those of the number that its text denotes. -/
theorem plain?_number {s : String} {d : Decimal} (h : Decimal.ofText? s = some d) :
    (number (some s)).plain? = d.toDatum? :=
  plainNumber?_some h

/-- An integer that stands in place of the text of a number is checked as its text. -/
theorem check_number_of_int {entries : List (Datum × Datum)} {n : Int}
    (htype : Datum.member? entries "type" = some (.str "number"))
    (hvalue : Datum.member? entries "value" = some (.int n)) :
    check (.map entries) = .valid (.number (some (Text.intText n))) :=
  check_of_members htype (Tag.ofName?_name .number) hvalue

theorem plain?_number_intText {n : Int} (h : (Decimal.ofInt n).isInRange = true) :
    (number (some (Text.intText n))).plain? = some (.int n) := by
  rw [plain?_number (Decimal.ofText?_intText h)]
  exact Decimal.toDatum?_of_value? (Decimal.value?_ofInt n)

/-- A number is given as an integer if and only if its text denotes that integer, texts that denote
one value are given as the same datum, and an integer in place of the text comes out as itself. -/
theorem numbers_exact :
    (∀ s q, Denotes s q → ∀ n : Int, (number (some s)).plain? = some (.int n) ↔ q = n) ∧
      (∀ s s' q, Denotes s q → Denotes s' q →
        (number (some s)).plain? = (number (some s')).plain?) ∧
        ∀ (entries : List (Datum × Datum)) (n : Int),
          Datum.member? entries "type" = some (.str "number") →
          Datum.member? entries "value" = some (.int n) → (Decimal.ofInt n).isInRange = true →
          ∃ t, check (.map entries) = .valid t ∧ t.plain? = some (.int n) := by
  refine ⟨?_, ?_, ?_⟩
  · intro s q h n
    obtain ⟨d, hread, hq⟩ := denotes_iff.mp h
    rw [plain?_number hread]
    exact Decimal.toDatum?_eq_int_iff hq
  · intro s s' q h h'
    obtain ⟨d, hread, hq⟩ := denotes_iff.mp h
    obtain ⟨d', hread', hq'⟩ := denotes_iff.mp h'
    rw [plain?_number hread, plain?_number hread']
    exact Decimal.toDatum?_congr hq hq'
  · intro entries n htype hvalue hrange
    exact ⟨_, check_number_of_int htype hvalue, plain?_number_intText hrange⟩

/-- With a sign, an underscore, a fraction, an exponent and blanks, or in digits of another script,
a text may denote the same integer; and so may an integer of more digits than a floating-point
number has. -/
theorem numbers_exact_spelled :
    (number (some " +1_25.00e1\n")).plain? = some (.int 1250) ∧
      (number (some " +1_25.00e1\n")).plain? = (number (some "١٢٥٠")).plain? ∧
        ∃ t, check (.map [(.str "type", .str "number"), (.str "value", .int (10 ^ 30 + 1))]) =
          .valid t ∧ t.plain? = some (.int (10 ^ 30 + 1)) := by
  have hspelled : Denotes " +1_25.00e1\n" 1250 :=
    denotes_iff.mpr ⟨.finite false 12500 (-1), by decide +kernel, by norm_num [signed]⟩
  have hscript : Denotes "١٢٥٠" 1250 :=
    denotes_iff.mpr ⟨.finite false 1250 0, by decide +kernel, by norm_num [signed]⟩
  exact ⟨(numbers_exact.1 _ _ hspelled 1250).mpr (by norm_num),
    numbers_exact.2.1 _ _ _ hspelled hscript,
    numbers_exact.2.2 _ _ rfl rfl (by decide +kernel)⟩

end TypedValue

end BlockDoc
