import BlockDoc.Text.Digit
import BlockDoc.Text.Lines
import Mathlib.Data.List.Forall2

/-!
# Reading a text back from its characters

A text that is put together from pieces can be taken apart if one can see where the first piece
ends: either because the character after it does not occur in a piece, or because no piece begins
another one.

## Main results

* `Text.append_inj_of_stop` — a piece ends at the first character of a certain kind
* `Text.forall₂_of_flatMap_eq` — a sequence of pieces is determined if its first piece is
* `Text.intText_injective` — a number is determined by its digits
-/

namespace BlockDoc

namespace Text

-- ════════════════════════════════════════════════════════════════════════
-- Pieces
-- ════════════════════════════════════════════════════════════════════════

section Pieces

variable {α β : Type}

/-- A piece without a character of a kind, before a rest that is empty or begins with one, is what
stands before the first such character. -/
theorem append_inj_of_stop {stop : α → Bool} {xs ys r t : List α}
    (hxs : ∀ x ∈ xs, stop x = false) (hys : ∀ y ∈ ys, stop y = false)
    (hr : ∀ c ∈ r.head?, stop c = true) (ht : ∀ c ∈ t.head?, stop c = true)
    (h : xs ++ r = ys ++ t) : xs = ys ∧ r = t := by
  have hcut : ∀ {zs u : List α}, (∀ z ∈ zs, stop z = false) → (∀ c ∈ u.head?, stop c = true) →
      (zs ++ u).takeWhile (fun c => !stop c) = zs := by
    intro zs u hzs hu
    have hnil : u.takeWhile (fun c => !stop c) = [] := by
      cases u with
      | nil => rfl
      | cons c u => simp [hu c rfl]
    rw [List.takeWhile_append_of_pos (by simpa using hzs), hnil, List.append_nil]
  have hpiece : xs = ys := by
    rw [← hcut hxs hr, h, hcut hys ht]
  subst hpiece
  exact ⟨rfl, List.append_cancel_left h⟩

/-- If one can tell the first piece of every sequence, up to a relation, and see where it ends, then
sequences that make up the same text agree piece by piece. -/
theorem forall₂_of_flatMap_eq {enc : α → List β} {P : α → Prop} {R : α → α → Prop}
    (hne : ∀ a, P a → enc a ≠ [])
    (hfirst : ∀ (a a' : α) (as as' : List α), P a → P a' →
      enc a ++ as.flatMap enc = enc a' ++ as'.flatMap enc →
      R a a' ∧ as.flatMap enc = as'.flatMap enc)
    {as as' : List α} (has : ∀ a ∈ as, P a) (has' : ∀ a ∈ as', P a)
    (h : as.flatMap enc = as'.flatMap enc) : List.Forall₂ R as as' := by
  induction as generalizing as' with
  | nil =>
    cases as' with
    | nil => exact .nil
    | cons a' as' =>
      rw [List.flatMap_nil, List.flatMap_cons] at h
      exact absurd (List.append_eq_nil_iff.mp h.symm).1 (hne a' (has' a' (List.mem_cons_self ..)))
  | cons a as ih =>
    cases as' with
    | nil =>
      rw [List.flatMap_nil, List.flatMap_cons] at h
      exact absurd (List.append_eq_nil_iff.mp h).1 (hne a (has a (List.mem_cons_self ..)))
    | cons a' as' =>
      rw [List.flatMap_cons, List.flatMap_cons] at h
      obtain ⟨hR, hrest⟩ := hfirst a a' as as' (has a (List.mem_cons_self ..))
        (has' a' (List.mem_cons_self ..)) h
      exact .cons hR <| ih (fun x hx => has x (List.mem_cons_of_mem a hx))
        (fun x hx => has' x (List.mem_cons_of_mem a' hx)) hrest

end Pieces

/-- The characters of a text with a point before them. -/
def dotted (s : String) : List Char :=
  '.' :: s.toList

/-- With a point in front, a text joined with points is a sequence of texts that each have a point
in front. -/
theorem dotted_joinWith {ss : List String} (h : ss ≠ []) :
    dotted (joinWith "." ss) = ss.flatMap dotted := by
  induction ss with
  | nil => exact absurd rfl h
  | cons s rest ih =>
    cases rest with
    | nil => simp [joinWith]
    | cons t rest =>
      calc dotted (joinWith "." (s :: t :: rest))
          = dotted s ++ dotted (joinWith "." (t :: rest)) := by simp [joinWith, dotted]
        _ = dotted s ++ (t :: rest).flatMap dotted := by rw [ih (List.cons_ne_nil t rest)]
        _ = (s :: t :: rest).flatMap dotted := List.flatMap_cons.symm

-- ════════════════════════════════════════════════════════════════════════
-- Numbers
-- ════════════════════════════════════════════════════════════════════════

theorem isDigit_of_mem_natChars {n : Nat} {c : Char} (h : c ∈ natChars n) : c.isDigit = true :=
  Nat.isDigit_of_mem_toDigits (by decide) (by decide) h

theorem natChars_injective {m n : Nat} (h : natChars m = natChars n) : m = n := by
  have hvalue := congrArg (Nat.ofDigitChars 10 · 0) h
  simpa only [natChars, Nat.ofDigitChars_ten_toDigits] using hvalue

/-- A minus does not occur among digits. -/
theorem natChars_ne_minus_cons (n : Nat) (cs : List Char) : natChars n ≠ '-' :: cs := by
  intro h
  have hdigit := isDigit_of_mem_natChars (n := n) (c := '-') (h ▸ List.mem_cons_self ..)
  exact absurd hdigit (by decide)

theorem toList_intText (n : Int) :
    (intText n).toList = if n < 0 then '-' :: natChars n.natAbs else natChars n.natAbs := by
  rw [intText, String.toList_ofList]

/-- A number in base ten consists of digits, but for a minus. -/
theorem isDigit_of_mem_intText {n : Int} {c : Char} (h : c ∈ (intText n).toList) :
    c.isDigit = true ∨ c = '-' := by
  rw [toList_intText] at h
  split at h
  · rcases List.mem_cons.mp h with rfl | h
    · exact .inr rfl
    · exact .inl (isDigit_of_mem_natChars h)
  · exact .inl (isDigit_of_mem_natChars h)

theorem toList_intText_ne_nil (n : Int) : (intText n).toList ≠ [] := by
  rw [toList_intText]
  split
  · exact List.cons_ne_nil _ _
  · exact Nat.toDigits_ne_nil

theorem intText_injective {m n : Int} (h : intText m = intText n) : m = n := by
  have hchars := congrArg String.toList h
  rw [toList_intText, toList_intText] at hchars
  by_cases hm : m < 0 <;> by_cases hn : n < 0
  · rw [if_pos hm, if_pos hn] at hchars
    have habs := natChars_injective (List.cons.inj hchars).2
    omega
  · rw [if_pos hm, if_neg hn] at hchars
    exact absurd hchars.symm (natChars_ne_minus_cons _ _)
  · rw [if_neg hm, if_pos hn] at hchars
    exact absurd hchars (natChars_ne_minus_cons _ _)
  · rw [if_neg hm, if_neg hn] at hchars
    have habs := natChars_injective hchars
    omega

end Text

end BlockDoc
