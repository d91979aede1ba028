import BlockDoc.Proofs.Outcome
import BlockDoc.Proofs.Text.Trim

/-!
# The texts of types

A text of a type is a core with blanks around it, or with double quotes around it and blanks on
either side of each. A core is a single word, or a keyword with something in parentheses, which for
a collection is again the text of a type. Reading accepts exactly these texts, and the grammar is
unambiguous: what a text names is settled by its first word and its first and last parentheses.

## Main definitions

* `TypeExpr.Encloses` — the texts with a given core
* `TypeExpr.IsCore` — the cores, each with the name of its type
* `TypeExpr.IsTypeText` — the texts of types, each with the name of its type

## Main results

* `TypeExpr.ofText_eq_ok_iff_isTypeText` — reading accepts the texts of types and no others, and
  gives them their only name
-/

namespace BlockDoc

open Text (AreBlank IsTrimmed)

namespace TypeExpr

-- ════════════════════════════════════════════════════════════════════════
-- The grammar
-- ════════════════════════════════════════════════════════════════════════

/-- The texts with a core: between blanks, or between double quotes with blanks on either side. -/
inductive Encloses (core : List Char) : List Char → Prop
  | plain {before after : List Char} :
    AreBlank before → AreBlank after → Encloses core (before ++ core ++ after)
  | quoted {before opening closing after : List Char} :
    AreBlank before → AreBlank opening → AreBlank closing → AreBlank after →
      Encloses core (before ++ ('"' :: (opening ++ core ++ closing) ++ ['"']) ++ after)

/-- The text of a keyword with something in parentheses. -/
def callText (keyword gap inner : List Char) : List Char :=
  keyword ++ gap ++ '(' :: (inner ++ [')'])

/-- The cores of texts of types, each with the name of its type. -/
inductive IsCore : List Char → String → Prop
  | primitive {word : String} : word ∈ ["string", "number", "bool"] → IsCore word.toList word
  | any : IsCore "any".toList "dynamic"
  | collectionOfStrings {word : String} :
    word ∈ ["list", "map"] → IsCore word.toList (word ++ " of string")
  | collection {keyword name : String} {gap core inner : List Char} :
    keyword ∈ ["list", "map", "set"] → AreBlank gap → Encloses core inner → IsCore core name →
      IsCore (callText keyword.toList gap inner) (keyword ++ " of " ++ name)
  | structural {keyword : String} {gap : List Char} (inner : List Char) :
    keyword ∈ ["object", "tuple"] → AreBlank gap →
      IsCore (callText keyword.toList gap inner) keyword

/-- A text is the text of the type of the given name. -/
def IsTypeText (cs : List Char) (name : String) : Prop :=
  ∃ core, Encloses core cs ∧ IsCore core name

-- ════════════════════════════════════════════════════════════════════════
-- Blanks and quotes
-- ════════════════════════════════════════════════════════════════════════

theorem areBlank_nil : AreBlank [] := by
  simp [AreBlank]

/-- Further blanks around a text leave its core as it is. -/
theorem Encloses.pad {core cs before after : List Char} (h : Encloses core cs)
    (hbefore : AreBlank before) (hafter : AreBlank after) :
    Encloses core (before ++ cs ++ after) := by
  have happend : ∀ {xs ys : List Char}, AreBlank xs → AreBlank ys → AreBlank (xs ++ ys) :=
    fun hxs hys => List.forall_mem_append.mpr ⟨hxs, hys⟩
  cases h with
  | @plain b a hb ha =>
    have hassoc : before ++ (b ++ core ++ a) ++ after = (before ++ b) ++ core ++ (a ++ after) := by
      simp
    rw [hassoc]
    exact .plain (happend hbefore hb) (happend ha hafter)
  | @quoted b opening closing a hb ho hc ha =>
    have hassoc : before ++ (b ++ ('"' :: (opening ++ core ++ closing) ++ ['"']) ++ a) ++ after =
        (before ++ b) ++ ('"' :: (opening ++ core ++ closing) ++ ['"']) ++ (a ++ after) := by
      simp
    rw [hassoc]
    exact .quoted (happend hbefore hb) ho hc (happend ha hafter)

/-- The text that matters is a core of the whole. -/
theorem encloses_bare (cs : List Char) : Encloses (bare cs) cs := by
  obtain ⟨before, after, hcs, hbefore, hafter⟩ := Text.exists_trimChars cs
  have htrimmed : Encloses (bare cs) (Text.trimChars cs) := by
    have hplain : Encloses (Text.trimChars cs) (Text.trimChars cs) := by
      have hself : Encloses (Text.trimChars cs) ([] ++ Text.trimChars cs ++ []) :=
        .plain areBlank_nil areBlank_nil
      simpa using hself
    unfold bare unquote
    split
    · next rest hrest =>
      split
      · next hlast =>
        obtain ⟨opening, closing, hinner, hopening, hclosing⟩ :=
          Text.exists_trimChars rest.dropLast
        obtain ⟨front, rfl⟩ := List.getLast?_eq_some_iff.mp hlast
        rw [List.dropLast_concat] at hinner ⊢
        rw [hrest]
        have hquoted : Encloses (Text.trimChars front) ([] ++
            ('"' :: (opening ++ Text.trimChars front ++ closing) ++ ['"']) ++ []) :=
          .quoted areBlank_nil hopening hclosing areBlank_nil
        rw [← hinner] at hquoted
        simpa using hquoted
      · exact hplain
    · exact hplain
  have hpad := htrimmed.pad hbefore hafter
  rwa [← hcs] at hpad

theorem unquote_quoted (inner : List Char) :
    unquote ('"' :: (inner ++ ['"'])) = Text.trimChars inner := by
  simp [unquote]

/-- A trimmed text that does not begin with a quote is the text that matters of all texts of which
it is the core. -/
theorem Encloses.bare_eq {core cs : List Char} (h : Encloses core cs) (htrimmed : IsTrimmed core)
    (hquote : core.head? ≠ some '"') : bare cs = core := by
  cases h with
  | plain hbefore hafter =>
    rw [bare, Text.trimChars_between hbefore hafter htrimmed]
    unfold unquote
    split
    · exact absurd rfl hquote
    · rfl
  | @quoted before opening closing after hbefore hopening hclosing hafter =>
    have houter : IsTrimmed ('"' :: (opening ++ core ++ closing) ++ ['"']) := by
      constructor
      · intro c hc
        obtain rfl : '"' = c := by simpa using hc
        decide
      · intro c hc
        rw [List.getLast?_concat] at hc
        obtain rfl := Option.some.inj hc
        decide
    rw [bare, Text.trimChars_between hbefore hafter houter, List.cons_append, unquote_quoted,
      Text.trimChars_between hopening hclosing htrimmed]

theorem bare_trimChars (cs : List Char) : bare (Text.trimChars cs) = bare cs := by
  rw [bare, bare, Text.trimChars_of_isTrimmed (Text.isTrimmed_trimChars cs)]

-- ════════════════════════════════════════════════════════════════════════
-- Keywords and parentheses
-- ════════════════════════════════════════════════════════════════════════

theorem isKeywordChar_eq_false_of_isBlank {c : Char} (h : Text.isBlank c = true) :
    isKeywordChar c = false := by
  by_contra hkeyword
  have hrange : 97 ≤ c.toNat ∧ c.toNat ≤ 122 := by
    simpa [isKeywordChar, Char.le_def, UInt32.le_iff_toNat_le] using hkeyword
  simp [Text.isBlank, Text.isWhiteSpace] at h
  omega

/-- The texts of one or more characters of keywords. -/
def IsKeyword (cs : List Char) : Prop :=
  cs ≠ [] ∧ ∀ c ∈ cs, isKeywordChar c = true

instance : DecidablePred IsKeyword := fun cs =>
  have : Decidable (∀ c ∈ cs, isKeywordChar c = true) := List.decidableBAll _ cs
  inferInstanceAs (Decidable (_ ∧ _))

/-- A text is split at its first parenthesis and its last character in one way only. -/
theorem call?_eq_some_iff {cs keyword inner : List Char} :
    call? cs = some (keyword, inner) ↔
      IsKeyword keyword ∧ ∃ gap, AreBlank gap ∧ cs = callText keyword gap inner := by
  constructor
  · intro h
    unfold call? at h
    split at h
    · next c word rest hword hrest =>
      split at h
      · next hlast =>
        obtain ⟨rfl, rfl⟩ := Prod.mk.inj (Option.some.inj h)
        obtain ⟨front, rfl⟩ := List.getLast?_eq_some_iff.mp hlast
        refine ⟨⟨List.cons_ne_nil c word, ?_⟩, (cs.dropWhile isKeywordChar).takeWhile Text.isBlank,
          fun x hx => List.mem_takeWhile_imp hx, ?_⟩
        · intro x hx
          rw [← hword] at hx
          exact List.mem_takeWhile_imp hx
        · rw [callText, List.dropLast_concat, ← hrest, ← hword, List.append_assoc,
            List.takeWhile_append_dropWhile, List.takeWhile_append_dropWhile]
      · cases h
    · cases h
  · rintro ⟨⟨hne, hkeyword⟩, gap, hgap, rfl⟩
    have hstop : ∀ c, (gap ++ '(' :: (inner ++ [')'])).head? = some c →
        isKeywordChar c = false := by
      intro c hc
      cases gap with
      | nil =>
        obtain rfl : '(' = c := by simpa using hc
        decide
      | cons x gap =>
        obtain rfl : x = c := by simpa using hc
        exact isKeywordChar_eq_false_of_isBlank (hgap x (List.mem_cons_self ..))
    have htake : (callText keyword gap inner).takeWhile isKeywordChar = keyword := by
      rw [callText, List.append_assoc, List.takeWhile_append_of_pos hkeyword]
      cases hrest : gap ++ '(' :: (inner ++ [')']) with
      | nil => simp
      | cons c rest => simp [hstop c (by rw [hrest]; rfl)]
    have hdrop : (callText keyword gap inner).dropWhile isKeywordChar =
        gap ++ '(' :: (inner ++ [')']) := by
      rw [callText, List.append_assoc, List.dropWhile_append_of_pos hkeyword]
      cases hrest : gap ++ '(' :: (inner ++ [')']) with
      | nil => simp
      | cons c rest => simp [hstop c (by rw [hrest]; rfl)]
    have hopen : (gap ++ '(' :: (inner ++ [')'])).dropWhile Text.isBlank =
        '(' :: (inner ++ [')']) := by
      apply Text.dropWhile_isBlank_between hgap
      intro c hc
      obtain rfl : '(' = c := by simpa using hc
      decide
    obtain ⟨c, word, rfl⟩ := List.exists_cons_of_ne_nil hne
    simp [call?, htake, hdrop, hopen]

/-- A word is not read as a keyword with something in parentheses. -/
theorem ofWord?_callText (keyword gap inner : List Char) :
    ofWord? (callText keyword gap inner) = none := by
  have hlast : ∀ w ∈ words, w.1.toList.getLast? ≠ some ')' := by decide
  rw [ofWord?, Option.map_eq_none_iff, List.find?_eq_none]
  intro w hw heq
  apply hlast w hw
  rw [of_decide_eq_true heq, callText, ← List.cons_append, ← List.append_assoc,
    List.getLast?_concat]

theorem isCore_of_ofWord? {cs : List Char} {t : TypeExpr} (h : ofWord? cs = some t) :
    IsCore cs t.name := by
  obtain ⟨w, hfind, rfl⟩ := Option.map_eq_some_iff.mp h
  have hword := List.find?_some hfind
  obtain rfl : w.1.toList = cs := by simpa using hword
  have hmem := List.mem_of_find?_eq_some hfind
  simp only [words, List.mem_cons, List.not_mem_nil, or_false] at hmem
  rcases hmem with rfl | rfl | rfl | rfl | rfl | rfl
  · exact .primitive (by decide)
  · exact .primitive (by decide)
  · exact .primitive (by decide)
  · exact .any
  · exact .collectionOfStrings (by decide)
  · exact .collectionOfStrings (by decide)

theorem keyword_of_ofKeyword?_collection {keyword : List Char} {c : CollectionType}
    (h : CollectionType.ofKeyword? keyword = some c) : keyword = c.keyword.toList := by
  have hfound := List.find?_some h
  exact Eq.symm (by simpa using hfound)

theorem keyword_of_ofKeyword?_structural {keyword : List Char} {s : StructuralType}
    (h : StructuralType.ofKeyword? keyword = some s) : keyword = s.keyword.toList := by
  have hfound := List.find?_some h
  exact Eq.symm (by simpa using hfound)

-- ════════════════════════════════════════════════════════════════════════
-- Cores
-- ════════════════════════════════════════════════════════════════════════

section Cores

variable {core : List Char} {name : String}

/-- A core is a keyword, possibly with something in parentheses. -/
theorem IsCore.exists_keyword (h : IsCore core name) :
    ∃ keyword, IsKeyword keyword ∧
      (core = keyword ∨ ∃ gap inner, core = callText keyword gap inner) := by
  cases h with
  | primitive hword =>
    have hkeyword : ∀ w ∈ ["string", "number", "bool"], IsKeyword w.toList := by decide
    exact ⟨_, hkeyword _ hword, .inl rfl⟩
  | any => exact ⟨_, by decide, .inl rfl⟩
  | collectionOfStrings hword =>
    have hkeyword : ∀ w ∈ ["list", "map"], IsKeyword w.toList := by decide
    exact ⟨_, hkeyword _ hword, .inl rfl⟩
  | collection hword =>
    have hkeyword : ∀ w ∈ ["list", "map", "set"], IsKeyword w.toList := by decide
    exact ⟨_, hkeyword _ hword, .inr ⟨_, _, rfl⟩⟩
  | structural _ hword =>
    have hkeyword : ∀ w ∈ ["object", "tuple"], IsKeyword w.toList := by decide
    exact ⟨_, hkeyword _ hword, .inr ⟨_, _, rfl⟩⟩

theorem IsKeyword.exists_cons {cs : List Char} (h : IsKeyword cs) :
    ∃ c rest, cs = c :: rest ∧ isKeywordChar c = true := by
  obtain ⟨c, rest, rfl⟩ := List.exists_cons_of_ne_nil h.1
  exact ⟨c, rest, rfl, h.2 c (List.mem_cons_self ..)⟩

theorem IsCore.exists_cons (h : IsCore core name) :
    ∃ c rest, core = c :: rest ∧ isKeywordChar c = true := by
  obtain ⟨keyword, hkeyword, hcore⟩ := h.exists_keyword
  obtain ⟨c, rest, rfl, hc⟩ := hkeyword.exists_cons
  rcases hcore with rfl | ⟨gap, inner, rfl⟩
  · exact ⟨c, rest, rfl, hc⟩
  · exact ⟨c, rest ++ gap ++ '(' :: (inner ++ [')']), rfl, hc⟩

theorem IsCore.isTrimmed (h : IsCore core name) : IsTrimmed core := by
  have hvisible : ∀ {c : Char}, isKeywordChar c = true → Text.isBlank c = false := by
    intro c hc
    by_contra hblank
    rw [isKeywordChar_eq_false_of_isBlank (by simpa using hblank)] at hc
    cases hc
  obtain ⟨keyword, hkeyword, rfl | ⟨gap, inner, rfl⟩⟩ := h.exists_keyword
  · exact Text.isTrimmed_of_forall fun c hc => hvisible (hkeyword.2 c hc)
  · constructor
    · intro c hc
      obtain ⟨k, rest, hcons, hk⟩ := h.exists_cons
      rw [hcons, List.head?_cons] at hc
      exact hvisible (Option.some.inj hc ▸ hk)
    · intro c hc
      rw [callText, ← List.cons_append, ← List.append_assoc, List.getLast?_concat] at hc
      obtain rfl := Option.some.inj hc
      decide

theorem IsCore.head?_ne_quote (h : IsCore core name) : core.head? ≠ some '"' := by
  obtain ⟨c, rest, rfl, hc⟩ := h.exists_cons
  intro hquote
  obtain rfl := Option.some.inj hquote
  exact absurd hc (by decide)

end Cores

-- ════════════════════════════════════════════════════════════════════════
-- Reading
-- ════════════════════════════════════════════════════════════════════════

section Reading

variable {cs keyword inner : List Char}

theorem read_of_ofWord? {t : TypeExpr} (h : ofWord? (bare cs) = some t) : read cs = .ok t := by
  rw [read, h]

theorem read_of_call?_eq_none (hword : ofWord? (bare cs) = none) (hcall : call? (bare cs) = none) :
    read cs = .error (.notConstraint (String.ofList cs)) := by
  rw [read, hword]
  dsimp only
  split
  · rfl
  · next hsome =>
    rw [hcall] at hsome
    cases hsome

/-- How reading goes on from a keyword with something in parentheses. -/
theorem read_of_call? (hword : ofWord? (bare cs) = none)
    (hcall : call? (bare cs) = some (keyword, inner)) :
    read cs = match CollectionType.ofKeyword? keyword, StructuralType.ofKeyword? keyword with
      | some c, _ =>
        if (Text.trimChars inner).isEmpty then .error (.missingElement (String.ofList cs))
        else (read (Text.trimChars inner)).map (.collection c)
      | none, some s => .ok (.structural s)
      | none, none => .error (.unknownKeyword (String.ofList keyword) (String.ofList cs)) := by
  rw [read, hword]
  dsimp only
  split
  · next hnone =>
    rw [hcall] at hnone
    cases hnone
  · next hsome =>
    rw [hcall] at hsome
    obtain ⟨rfl, rfl⟩ := Prod.mk.inj (Option.some.inj hsome)
    rfl

/-- What is read as a type is a text of it. The induction follows the recursion of reading. -/
theorem isTypeText_of_read {t : TypeExpr} (h : read cs = .ok t) : IsTypeText cs t.name := by
  induction cs using read.induct generalizing t with
  | case1 cs u hword =>
    obtain rfl := Except.ok.inj ((read_of_ofWord? hword).symm.trans h)
    exact ⟨_, encloses_bare cs, isCore_of_ofWord? hword⟩
  | case2 cs hword hcall =>
    rw [read_of_call?_eq_none hword hcall] at h
    cases h
  | case3 cs hword keyword inner hcall c hkeyword hinner =>
    rw [read_of_call? hword hcall, hkeyword] at h
    simp only [if_pos hinner] at h
    cases h
  | case4 cs hword keyword inner hcall c hkeyword hinner ih =>
    rw [read_of_call? hword hcall, hkeyword] at h
    simp only [if_neg hinner] at h
    obtain ⟨element, helement, rfl⟩ := exists_of_map_eq_ok h
    obtain ⟨core, hencloses, hcore⟩ := ih helement
    obtain ⟨before, after, hpad, hbefore, hafter⟩ := Text.exists_trimChars inner
    obtain ⟨-, gap, hgap, hbare⟩ := call?_eq_some_iff.mp hcall
    have hinner : Encloses core inner := hpad ▸ hencloses.pad hbefore hafter
    have hmem : c.keyword ∈ ["list", "map", "set"] := by cases c <;> decide
    refine ⟨bare cs, encloses_bare cs, ?_⟩
    rw [hbare, keyword_of_ofKeyword?_collection hkeyword]
    exact .collection hmem hgap hinner hcore
  | case5 cs hword keyword inner hcall s hstructural hkeyword =>
    rw [read_of_call? hword hcall, hkeyword, hstructural] at h
    obtain rfl := Except.ok.inj h
    obtain ⟨-, gap, hgap, hbare⟩ := call?_eq_some_iff.mp hcall
    have hmem : s.keyword ∈ ["object", "tuple"] := by cases s <;> decide
    refine ⟨bare cs, encloses_bare cs, ?_⟩
    rw [hbare, keyword_of_ofKeyword?_structural hstructural]
    exact .structural inner hmem hgap
  | case6 cs hword keyword inner hcall hstructural hkeyword =>
    rw [read_of_call? hword hcall, hkeyword, hstructural] at h
    cases h

/-- A text that matters only for its core is read as the type of the core. The induction is on the
core, since the text around the core of an element is not the text that reading goes on with. -/
theorem IsCore.exists_read {core : List Char} {name : String} (h : IsCore core name)
    (hcs : bare cs = core) : ∃ t, read cs = .ok t ∧ t.name = name := by
  induction h generalizing cs with
  | primitive hword =>
    simp only [List.mem_cons, List.not_mem_nil, or_false] at hword
    rcases hword with rfl | rfl | rfl <;> exact ⟨_, read_of_ofWord? (by rw [hcs]; rfl), rfl⟩
  | any => exact ⟨_, read_of_ofWord? (by rw [hcs]; rfl), rfl⟩
  | collectionOfStrings hword =>
    simp only [List.mem_cons, List.not_mem_nil, or_false] at hword
    rcases hword with rfl | rfl <;> exact ⟨_, read_of_ofWord? (by rw [hcs]; rfl), rfl⟩
  | @collection keyword name gap core inner hkeyword hgap hencloses hcore ih =>
    have hmember : ∀ w ∈ ["list", "map", "set"], IsKeyword w.toList ∧
        ∃ c, CollectionType.ofKeyword? w.toList = some c ∧ c.keyword = w := by
      simp only [List.forall_mem_cons, List.not_mem_nil, false_imp_iff, implies_true, and_true]
      exact ⟨⟨by decide, .list, rfl, rfl⟩, ⟨by decide, .map, rfl, rfl⟩, by decide, .set, rfl, rfl⟩
    obtain ⟨hchars, c, hc, rfl⟩ := hmember _ hkeyword
    have hcall : call? (bare cs) = some (c.keyword.toList, inner) :=
      call?_eq_some_iff.mpr ⟨hchars, gap, hgap, hcs⟩
    have hbare : bare (Text.trimChars inner) = core := by
      rw [bare_trimChars, hencloses.bare_eq hcore.isTrimmed hcore.head?_ne_quote]
    have hinner : Text.trimChars inner ≠ [] := by
      intro hnil
      obtain ⟨x, rest, rfl, -⟩ := hcore.exists_cons
      rw [hnil] at hbare
      cases hbare
    obtain ⟨t, ht, rfl⟩ := ih hbare
    refine ⟨.collection c t, ?_, rfl⟩
    rw [read_of_call? (by rw [hcs, ofWord?_callText]) hcall, hc]
    simp only [List.isEmpty_iff, if_neg hinner, ht]
    rfl
  | @structural keyword gap inner hkeyword hgap =>
    have hmember : ∀ w ∈ ["object", "tuple"], IsKeyword w.toList ∧
        CollectionType.ofKeyword? w.toList = none ∧
        ∃ s, StructuralType.ofKeyword? w.toList = some s ∧ s.keyword = w := by
      simp only [List.forall_mem_cons, List.not_mem_nil, false_imp_iff, implies_true, and_true]
      exact ⟨⟨by decide, rfl, .object, rfl, rfl⟩, by decide, rfl, .tuple, rfl, rfl⟩
    obtain ⟨hchars, hnone, s, hs, rfl⟩ := hmember _ hkeyword
    have hcall : call? (bare cs) = some (s.keyword.toList, inner) :=
      call?_eq_some_iff.mpr ⟨hchars, gap, hgap, hcs⟩
    refine ⟨.structural s, ?_, rfl⟩
    rw [read_of_call? (by rw [hcs, ofWord?_callText]) hcall, hnone, hs]

end Reading

/-- Reading gives a text the name of its type, which is its only one, and refuses every text that is
not the text of a type. -/
theorem ofText_eq_ok_iff_isTypeText (s : String) :
    (∀ name, (ofText s).map TypeExpr.name = .ok name ↔ IsTypeText s.toList name) ∧
      ((∃ t, ofText s = .ok t) ∧ (∃! name, IsTypeText s.toList name) ∨
        (∃ fault, ofText s = .error fault) ∧ ¬∃ name, IsTypeText s.toList name) := by
  have hiff : ∀ name, (ofText s).map TypeExpr.name = .ok name ↔ IsTypeText s.toList name := by
    intro name
    constructor
    · intro h
      obtain ⟨t, ht, rfl⟩ := exists_of_map_eq_ok h
      exact isTypeText_of_read ht
    · rintro ⟨core, hencloses, hcore⟩
      obtain ⟨t, ht, rfl⟩ :=
        hcore.exists_read (hencloses.bare_eq hcore.isTrimmed hcore.head?_ne_quote)
      rw [ofText, ht]
      rfl
  refine ⟨hiff, ?_⟩
  cases hread : ofText s with
  | ok t =>
    refine .inl ⟨⟨t, rfl⟩, t.name, (hiff _).mp (by rw [hread]; rfl), ?_⟩
    intro name hname
    have hmap := (hiff name).mpr hname
    rw [hread] at hmap
    exact (Except.ok.inj hmap).symm
  | error fault =>
    refine .inr ⟨⟨fault, rfl⟩, ?_⟩
    rintro ⟨name, hname⟩
    have hmap := (hiff name).mpr hname
    rw [hread] at hmap
    cases hmap

end TypeExpr

end BlockDoc
