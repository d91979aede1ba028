import BlockDoc.Text.Blank
import Mathlib.Data.List.TakeWhile

/-!
# Trimmed texts

Trimming removes exactly the blanks at the two ends of a text: what is left begins and ends with a
character that is no blank, and what surrounds it in the text are blanks.

## Main definitions

* `Text.AreBlank` — the texts of blanks only
* `Text.IsTrimmed` — the texts that neither begin nor end with a blank
-/

namespace BlockDoc

namespace Text

/-- All characters of a text are blanks. -/
def AreBlank (cs : List Char) : Prop :=
  ∀ c ∈ cs, isBlank c = true

/-- A text neither begins nor ends with a blank. -/
def IsTrimmed (cs : List Char) : Prop :=
  (∀ c, cs.head? = some c → isBlank c = false) ∧ ∀ c, cs.getLast? = some c → isBlank c = false

theorem isTrimmed_of_forall {cs : List Char} (h : ∀ c ∈ cs, isBlank c = false) : IsTrimmed cs :=
  ⟨fun _ hc => h _ (List.mem_of_mem_head? hc), fun _ hc => h _ (List.mem_of_getLast? hc)⟩

theorem dropWhile_isBlank_between {before rest : List Char} (hbefore : AreBlank before)
    (hrest : ∀ c, rest.head? = some c → isBlank c = false) :
    (before ++ rest).dropWhile isBlank = rest := by
  rw [List.dropWhile_append_of_pos hbefore]
  cases rest with
  | nil => rfl
  | cons c rest => simp [hrest c rfl]

/-- Blanks around a trimmed text are removed, and nothing else is. -/
theorem trimChars_between {before body after : List Char} (hbefore : AreBlank before)
    (hafter : AreBlank after) (hbody : IsTrimmed body) :
    trimChars (before ++ body ++ after) = body := by
  have hreverse : AreBlank after.reverse := by
    intro c hc
    exact hafter c (List.mem_reverse.mp hc)
  have hlast : (after.reverse ++ body.reverse).dropWhile isBlank = body.reverse := by
    apply dropWhile_isBlank_between hreverse
    simpa using hbody.2
  rw [trimChars, trimWhere, List.append_assoc, List.dropWhile_append_of_pos hbefore]
  cases body with
  | nil =>
    have hnil : after.dropWhile isBlank = [] := List.dropWhile_eq_nil_iff.mpr hafter
    simp [hnil]
  | cons c body =>
    have hfirst : ([] ++ ((c :: body) ++ after)).dropWhile isBlank = (c :: body) ++ after := by
      apply dropWhile_isBlank_between (by simp [AreBlank])
      simpa using hbody.1
    rw [List.nil_append] at hfirst
    rw [hfirst, List.reverse_append, hlast, List.reverse_reverse]

/-- What is removed from a text are blanks at its two ends. -/
theorem exists_trimChars (cs : List Char) :
    ∃ before after, cs = before ++ trimChars cs ++ after ∧ AreBlank before ∧ AreBlank after := by
  have htake : ∀ cs : List Char, AreBlank (cs.takeWhile isBlank) :=
    fun cs c hc => List.mem_takeWhile_imp hc
  let rest := cs.dropWhile isBlank
  refine ⟨cs.takeWhile isBlank, (rest.reverse.takeWhile isBlank).reverse, ?_, htake cs, ?_⟩
  · have hrest : rest = trimChars cs ++ (rest.reverse.takeWhile isBlank).reverse := by
      rw [trimChars, trimWhere, ← List.reverse_append, List.takeWhile_append_dropWhile,
        List.reverse_reverse]
    rw [List.append_assoc, ← hrest, List.takeWhile_append_dropWhile]
  · intro c hc
    exact htake _ c (List.mem_reverse.mp hc)

theorem isBlank_eq_false_of_head?_dropWhile {cs : List Char} {c : Char}
    (h : (cs.dropWhile isBlank).head? = some c) : isBlank c = false := by
  have hhead := List.head?_dropWhile_not isBlank cs
  rw [h] at hhead
  exact hhead

theorem isTrimmed_trimChars (cs : List Char) : IsTrimmed (trimChars cs) := by
  constructor
  · intro c hc
    -- The first character has been the first one before the end was trimmed.
    let rest := cs.dropWhile isBlank
    have hsuffix : rest.reverse.dropWhile isBlank <:+ rest.reverse := List.dropWhile_suffix isBlank
    rw [trimChars, trimWhere, List.head?_reverse] at hc
    have hlast : rest.reverse.getLast? = some c := by
      obtain ⟨front, hfront⟩ := hsuffix
      rw [← hfront, List.getLast?_append, hc, Option.some_or]
    rw [List.getLast?_reverse] at hlast
    exact isBlank_eq_false_of_head?_dropWhile hlast
  · intro c hc
    rw [trimChars, trimWhere, List.getLast?_reverse] at hc
    exact isBlank_eq_false_of_head?_dropWhile hc

theorem trimChars_of_isTrimmed {cs : List Char} (h : IsTrimmed cs) : trimChars cs = cs := by
  have hnil : AreBlank [] := by simp [AreBlank]
  simpa using trimChars_between hnil hnil h

end Text

end BlockDoc
