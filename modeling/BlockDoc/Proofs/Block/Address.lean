import BlockDoc.Proofs.Lineage.Chain
import BlockDoc.Proofs.Text.Decode

/-!
# Paths identify blocks

The path of a block is a sequence of names with points between them, some with an instance key in
brackets. If the labels have neither points nor brackets, and the keys no quotation marks, the path
can be taken apart in two rounds: the characters into segments, each a name with its key, and the
segments into the addresses of the module blocks and of the block itself. Therefore blocks with the
same path have the same place.

## Main definitions

* `Segment` — a name with an instance key, or without one
* `Block.segments` — the segments of the address that follows from a block
* `Block.IsAddressable` — the address of a block can be taken apart

## Main results

* `Segment.eq_of_flatMap_dotted_eq` — the characters of a path determine its segments
* `Block.agree_of_segments_append_eq` — the segments of a path determine its first block
* `Lineage.agree_of_path_joined_eq` — a path determines a block and the module blocks around it
-/

namespace BlockDoc

-- ════════════════════════════════════════════════════════════════════════
-- Segments
-- ════════════════════════════════════════════════════════════════════════

/-- A key whose end can be seen: its text, if it is one, contains no quotation mark. -/
def InstanceKey.IsReadable : InstanceKey → Prop
  | .number _ => True
  | .name t => '"' ∉ t.toList

instance : DecidablePred InstanceKey.IsReadable
  | .number _ => inferInstanceAs (Decidable True)
  | .name t => inferInstanceAs (Decidable ('"' ∉ t.toList))

/-- A part of a path: a name, and what sets an instance apart. -/
structure Segment where
  name : String
  key : Option InstanceKey := none

namespace Segment

/-- The characters of an instance key at the end of a segment. -/
def keyChars : Option InstanceKey → List Char
  | none => []
  | some key => key.suffix.toList

/-- The characters of a segment in a path, with the point before it. -/
def dotted (s : Segment) : List Char :=
  Text.dotted s.name ++ keyChars s.key

/-- A segment whose end can be seen: its name contains no point and no bracket. -/
structure IsReadable (s : Segment) : Prop where
  name : ∀ c ∈ s.name.toList, c ≠ '.' ∧ c ≠ '['
  key : ∀ k ∈ s.key, k.IsReadable

@[simp] theorem keyChars_number (n : Int) :
    keyChars (some (.number n)) = '[' :: ((Text.intText n).toList ++ [']']) := by
  simp [keyChars, InstanceKey.suffix]

@[simp] theorem keyChars_name (t : String) :
    keyChars (some (.name t)) = '[' :: '"' :: (t.toList ++ ['"', ']']) := by
  simp [keyChars, InstanceKey.suffix]

/-- Instance keys begin with a bracket, and nothing else that can follow a name does. -/
theorem head?_keyChars_append (k : InstanceKey) (r : List Char) :
    (keyChars (some k) ++ r).head? = some '[' := by
  cases k <;> simp

/-- The digits of a number do not begin with a quotation mark. -/
theorem intText_append_ne_quote_cons (n : Int) (r u : List Char) :
    (Text.intText n).toList ++ r ≠ '"' :: u := by
  obtain ⟨c, cs, hcs⟩ := List.exists_cons_of_ne_nil (Text.toList_intText_ne_nil n)
  rw [hcs, List.cons_append]
  intro h
  obtain ⟨rfl, -⟩ := List.cons.inj h
  have hquote := Text.isDigit_of_mem_intText (n := n) (c := '"') (hcs ▸ List.mem_cons_self ..)
  exact absurd hquote (by decide)

/-- An instance key is determined by a text that begins with it, if the rest does not begin like a
key. -/
theorem eq_of_keyChars_append_eq {k k' : Option InstanceKey} {r r' : List Char}
    (hk : ∀ key ∈ k, key.IsReadable) (hk' : ∀ key ∈ k', key.IsReadable)
    (hr : r.head? ≠ some '[') (hr' : r'.head? ≠ some '[')
    (h : keyChars k ++ r = keyChars k' ++ r') : k = k' ∧ r = r' := by
  -- A number ends at the closing bracket, a text at the closing quotation mark.
  have hbracket : ∀ n : Int, ∀ c ∈ (Text.intText n).toList, (c == ']') = false := by
    intro n c hc
    rcases Text.isDigit_of_mem_intText hc with hdigit | rfl
    · exact beq_false_of_ne (by rintro rfl; exact absurd hdigit (by decide))
    · rfl
  have hquote : ∀ {t : String}, InstanceKey.IsReadable (.name t) →
      ∀ c ∈ t.toList, (c == '"') = false :=
    fun ht c hc => beq_false_of_ne (by rintro rfl; exact ht hc)
  match k, k' with
  | none, none => exact ⟨rfl, h⟩
  | none, some key =>
    refine absurd ?_ hr
    rw [show r = keyChars (some key) ++ r' from h, head?_keyChars_append]
  | some key, none =>
    refine absurd ?_ hr'
    rw [show r' = keyChars (some key) ++ r from h.symm, head?_keyChars_append]
  | some (.number m), some (.number n) =>
    simp only [keyChars_number, List.cons_append, List.append_assoc, List.cons.injEq, true_and,
      List.nil_append] at h
    obtain ⟨hdigits, hrest⟩ := Text.append_inj_of_stop (hbracket m) (hbracket n)
      (by simp) (by simp) h
    rw [Text.intText_injective (String.toList_injective hdigits)]
    exact ⟨rfl, (List.cons.inj hrest).2⟩
  | some (.name s), some (.name t) =>
    simp only [keyChars_name, List.cons_append, List.append_assoc, List.cons.injEq, true_and,
      List.nil_append] at h
    obtain ⟨htext, hrest⟩ := Text.append_inj_of_stop (hquote (hk _ rfl)) (hquote (hk' _ rfl))
      (by simp) (by simp) h
    rw [String.toList_injective htext]
    exact ⟨rfl, (List.cons.inj (List.cons.inj hrest).2).2⟩
  | some (.number n), some (.name t) =>
    simp only [keyChars_number, keyChars_name, List.cons_append, List.append_assoc,
      List.cons.injEq, true_and] at h
    exact absurd h (intText_append_ne_quote_cons _ _ _)
  | some (.name s), some (.number n) =>
    simp only [keyChars_number, keyChars_name, List.cons_append, List.append_assoc,
      List.cons.injEq, true_and] at h
    exact absurd h.symm (intText_append_ne_quote_cons _ _ _)

/-- What follows a segment in a path is nothing, or begins with a point. -/
theorem head?_flatMap_dotted (ss : List Segment) :
    ∀ c ∈ (ss.flatMap dotted).head?, c = '.' := by
  cases ss with
  | nil => simp
  | cons s ss => simp [dotted, Text.dotted]

/-- The characters of a path determine its first segment, and where it ends. -/
theorem eq_of_dotted_append_eq {s s' : Segment} {ss ss' : List Segment} (hs : s.IsReadable)
    (hs' : s'.IsReadable)
    (h : s.dotted ++ ss.flatMap dotted = s'.dotted ++ ss'.flatMap dotted) :
    s = s' ∧ ss.flatMap dotted = ss'.flatMap dotted := by
  -- A name ends at the next point or opening bracket.
  let stop : Char → Bool := fun c => c == '.' || c == '['
  have hname : ∀ {s : Segment}, s.IsReadable → ∀ c ∈ s.name.toList, stop c = false := by
    intro s hs c hc
    simp [stop, hs.name c hc]
  have hrest : ∀ (k : Option InstanceKey) (ss : List Segment),
      ∀ c ∈ (keyChars k ++ ss.flatMap dotted).head?, stop c = true := by
    intro k ss c hc
    cases k with
    | none => simp [stop, head?_flatMap_dotted ss c hc]
    | some key =>
      rw [head?_keyChars_append] at hc
      cases hc
      rfl
  have hnext : ∀ ss : List Segment, (ss.flatMap dotted).head? ≠ some '[' := by
    intro ss hhead
    exact absurd (head?_flatMap_dotted ss '[' hhead) (by decide)
  simp only [dotted, Text.dotted, List.cons_append, List.append_assoc, List.cons.injEq,
    true_and] at h
  obtain ⟨hnames, h⟩ := Text.append_inj_of_stop (hname hs) (hname hs') (hrest s.key ss)
    (hrest s'.key ss') h
  obtain ⟨hkeys, h⟩ := eq_of_keyChars_append_eq hs.key hs'.key (hnext ss) (hnext ss') h
  refine ⟨?_, h⟩
  cases s
  cases s'
  congr
  exact String.toList_injective hnames

/-- The characters of a path determine its segments. -/
theorem eq_of_flatMap_dotted_eq {ss ss' : List Segment} (hs : ∀ s ∈ ss, s.IsReadable)
    (hs' : ∀ s ∈ ss', s.IsReadable) (h : ss.flatMap dotted = ss'.flatMap dotted) : ss = ss' := by
  rw [← List.forall₂_eq_eq_eq]
  exact Text.forall₂_of_flatMap_eq (fun s _ => by simp [dotted, Text.dotted])
    (fun s s' ss ss' => eq_of_dotted_append_eq) hs hs' h

/-- The parts of an address as segments, the last one with the instance key. -/
def ofParts (key : Option InstanceKey) : List String → List Segment
  | [] => []
  | [p] => [⟨p, key⟩]
  | p :: rest => ⟨p, none⟩ :: ofParts key rest

theorem flatMap_dotted_ofParts (key : Option InstanceKey) {parts : List String} (h : parts ≠ []) :
    (ofParts key parts).flatMap dotted = parts.flatMap Text.dotted ++ keyChars key := by
  induction parts with
  | nil => exact absurd rfl h
  | cons p rest ih =>
    cases rest with
    | nil => simp [ofParts, dotted]
    | cons q rest =>
      rw [ofParts, List.flatMap_cons, ih (List.cons_ne_nil q rest), List.flatMap_cons]
      · simp [dotted, keyChars]
      · exact List.cons_ne_nil q rest

@[simp] theorem map_name_ofParts (key : Option InstanceKey) (parts : List String) :
    (ofParts key parts).map Segment.name = parts := by
  induction parts with
  | nil => rfl
  | cons p rest ih =>
    cases rest with
    | nil => rfl
    | cons q rest => rw [ofParts, List.map_cons, ih]; exact List.cons_ne_nil q rest

@[simp] theorem length_ofParts (key : Option InstanceKey) (parts : List String) :
    (ofParts key parts).length = parts.length := by
  rw [← List.length_map Segment.name, map_name_ofParts]

theorem map_key_getLast?_ofParts (key : Option InstanceKey) {parts : List String}
    (h : parts ≠ []) : (ofParts key parts).getLast?.map Segment.key = some key := by
  induction parts with
  | nil => exact absurd rfl h
  | cons p rest ih =>
    cases rest with
    | nil => rfl
    | cons q rest =>
      have hne : ofParts key (q :: rest) ≠ [] := by
        intro hnil
        have hnames := map_name_ofParts key (q :: rest)
        rw [hnil] at hnames
        cases hnames
      rw [ofParts, List.getLast?_cons_of_ne_nil hne, ih (List.cons_ne_nil q rest)]
      exact List.cons_ne_nil q rest

/-- The parts of an address are the names of its segments, and the key is that of the last one. -/
theorem ofParts_injective {k k' : Option InstanceKey} {parts parts' : List String}
    (hne : parts ≠ []) (h : ofParts k parts = ofParts k' parts') : parts = parts' ∧ k = k' := by
  have hparts : parts = parts' := by
    rw [← map_name_ofParts k parts, h, map_name_ofParts]
  subst hparts
  refine ⟨rfl, Option.some.inj ?_⟩
  rw [← map_key_getLast?_ofParts k hne, h, map_key_getLast?_ofParts k' hne]

/-- Each segment of an address has one of its parts as a name, and the instance key if any. -/
theorem mem_ofParts {key : Option InstanceKey} {parts : List String} {s : Segment}
    (h : s ∈ ofParts key parts) : s.name ∈ parts ∧ (s.key = none ∨ s.key = key) := by
  induction parts with
  | nil => cases h
  | cons p rest ih =>
    cases rest with
    | nil =>
      obtain rfl := List.mem_singleton.mp h
      exact ⟨List.mem_singleton_self p, .inr rfl⟩
    | cons q rest =>
      rcases List.mem_cons.mp h with rfl | h
      · exact ⟨List.mem_cons_self .., .inl rfl⟩
      · exact ⟨List.mem_cons_of_mem p (ih h).1, (ih h).2⟩

end Segment

-- ════════════════════════════════════════════════════════════════════════
-- Addresses
-- ════════════════════════════════════════════════════════════════════════

namespace Block

/-- The types of blocks whose addresses can be taken apart. -/
def addressableTypes : List String :=
  ["resource", "data", "variable", "output", "provider", "module"]

/-- The words with which the addresses of such blocks begin, except for resources. -/
def addressWords : List String :=
  ["data", "var", "output", "provider", "module"]

/-- A block whose address follows from its type, labels and index, and can be taken apart: the type
fixes the number of labels, the labels have neither points nor brackets, the key can be read, and
the address of a resource does not begin with the word for another type. -/
structure IsAddressable (b : Block) : Prop where
  derived : b.explicitReference.getD "" = ""
  type : b.type ∈ addressableTypes
  arity : b.labels.length = if b.type = "resource" ∨ b.type = "data" then 2 else 1
  labels : ∀ s ∈ b.labels, s ≠ "" ∧ '.' ∉ s.toList ∧ '[' ∉ s.toList
  typeLabel : b.type = "resource" → b.typeLabel ∉ addressWords
  index : ∀ key ∈ b.index, key.IsReadable

instance : DecidablePred IsAddressable := fun b =>
  decidable_of_iff (b.explicitReference.getD "" = "" ∧ b.type ∈ addressableTypes ∧
      (b.labels.length = if b.type = "resource" ∨ b.type = "data" then 2 else 1) ∧
      (∀ s ∈ b.labels, s ≠ "" ∧ '.' ∉ s.toList ∧ '[' ∉ s.toList) ∧
      (b.type = "resource" → b.typeLabel ∉ addressWords) ∧ ∀ key ∈ b.index, key.IsReadable)
    ⟨fun ⟨h₁, h₂, h₃, h₄, h₅, h₆⟩ => ⟨h₁, h₂, h₃, h₄, h₅, h₆⟩,
      fun ⟨h₁, h₂, h₃, h₄, h₅, h₆⟩ => ⟨h₁, h₂, h₃, h₄, h₅, h₆⟩⟩

/-- What the path of a block says about it. -/
structure Agree (b b' : Block) : Prop where
  type : b.type = b'.type
  labels : b.labels = b'.labels
  index : b.index = b'.index

/-- The segments of the address that follows from a block. -/
def segments (b : Block) : List Segment :=
  Segment.ofParts b.index b.addressParts

/-- The word with which the addresses of blocks of a type begin, except for resources. -/
def addressWord (type : String) : String :=
  if type = "variable" then "var" else type

theorem addressWord_mem : ∀ type ∈ addressableTypes, type ≠ "resource" →
    addressWord type ∈ addressWords := by
  decide

theorem eq_of_addressWord_eq : ∀ type ∈ addressableTypes, ∀ type' ∈ addressableTypes,
    addressWord type = addressWord type' → type = type' := by
  decide

namespace IsAddressable

variable {b b' : Block}

/-- The address of a resource consists of its labels. -/
theorem addressParts_of_resource (h : b.IsAddressable) (htype : b.type = "resource") :
    b.addressParts = b.labels := by
  have hlength := h.arity
  rw [if_pos (.inl htype)] at hlength
  obtain ⟨x, y, hlabels⟩ := List.length_eq_two.mp hlength
  simp [addressParts, htype, Block.typeLabel, nameLabel, hlabels]

/-- The address of any other block begins with a word for its type. -/
theorem addressParts_of_ne (h : b.IsAddressable) (htype : b.type ≠ "resource") :
    b.addressParts = addressWord b.type :: b.labels := by
  have hrest : ∀ type ∈ addressableTypes,
      ¬(type = "locals" ∨ type = "terraform" ∨ type = "moved") := by
    decide
  rw [addressParts, if_neg htype, if_neg (hrest b.type h.type), addressWord]
  split <;> rfl

/-- The number of parts of an address depends on the type only. -/
theorem length_addressParts_eq (h : b.IsAddressable) (h' : b'.IsAddressable)
    (htype : b.type = b'.type) : b.addressParts.length = b'.addressParts.length := by
  have hlabels : b.labels.length = b'.labels.length := by
    rw [h.arity, h'.arity, htype]
  by_cases hresource : b.type = "resource"
  · rw [h.addressParts_of_resource hresource, h'.addressParts_of_resource (htype ▸ hresource)]
    exact hlabels
  · rw [h.addressParts_of_ne hresource, h'.addressParts_of_ne (htype ▸ hresource),
      List.length_cons, List.length_cons, hlabels]

theorem addressParts_ne_nil (h : b.IsAddressable) : b.addressParts ≠ [] := by
  by_cases hresource : b.type = "resource"
  · rw [addressParts, if_pos hresource]
    exact List.cons_ne_nil _ _
  · rw [h.addressParts_of_ne hresource]
    exact List.cons_ne_nil _ _

/-- The first part of an address determines the type, since the address of a resource does not begin
with the word for another type. -/
theorem type_eq_of_head?_eq (h : b.IsAddressable) (h' : b'.IsAddressable)
    (hhead : b.addressParts.head? = b'.addressParts.head?) : b.type = b'.type := by
  have hresource : ∀ {b b' : Block}, b.IsAddressable → b'.IsAddressable →
      b.type = "resource" → b'.type ≠ "resource" →
      b.addressParts.head? ≠ b'.addressParts.head? := by
    intro b b' h h' htype htype' hhead
    rw [addressParts, if_pos htype, h'.addressParts_of_ne htype', List.head?_cons,
      List.head?_cons] at hhead
    apply h.typeLabel htype
    rw [Option.some.inj hhead]
    exact addressWord_mem b'.type h'.type htype'
  by_cases htype : b.type = "resource" <;> by_cases htype' : b'.type = "resource"
  · rw [htype, htype']
  · exact absurd hhead (hresource h h' htype htype')
  · exact absurd hhead.symm (hresource h' h htype' htype)
  · rw [h.addressParts_of_ne htype, h'.addressParts_of_ne htype', List.head?_cons,
      List.head?_cons] at hhead
    exact eq_of_addressWord_eq b.type h.type b'.type h'.type (Option.some.inj hhead)

/-- The segments of a path determine its first block, and where its address ends. -/
theorem agree_of_segments_append_eq (h : b.IsAddressable) (h' : b'.IsAddressable)
    {r r' : List Segment} (heq : b.segments ++ r = b'.segments ++ r') :
    Agree b b' ∧ r = r' := by
  have hnames : b.addressParts ++ r.map Segment.name = b'.addressParts ++ r'.map Segment.name := by
    simpa [segments] using congrArg (List.map Segment.name) heq
  have htype : b.type = b'.type := by
    refine h.type_eq_of_head?_eq h' ?_
    rw [← List.head?_append_of_ne_nil _ h.addressParts_ne_nil, hnames,
      List.head?_append_of_ne_nil _ h'.addressParts_ne_nil]
  have hlength : b.segments.length = b'.segments.length := by
    simpa [segments] using h.length_addressParts_eq h' htype
  obtain ⟨hsegments, hrest⟩ := List.append_inj heq hlength
  obtain ⟨hparts, hindex⟩ := Segment.ofParts_injective h.addressParts_ne_nil hsegments
  refine ⟨⟨htype, ?_, hindex⟩, hrest⟩
  by_cases hresource : b.type = "resource"
  · rwa [h.addressParts_of_resource hresource,
      h'.addressParts_of_resource (htype ▸ hresource)] at hparts
  · rw [h.addressParts_of_ne hresource, h'.addressParts_of_ne (htype ▸ hresource)] at hparts
    exact (List.cons.inj hparts).2

/-- No part of the address is empty, or has a point or a bracket. -/
theorem readable_addressParts (h : b.IsAddressable) :
    ∀ s ∈ b.addressParts, s ≠ "" ∧ '.' ∉ s.toList ∧ '[' ∉ s.toList := by
  have hword : ∀ s ∈ addressWords, s ≠ "" ∧ '.' ∉ s.toList ∧ '[' ∉ s.toList := by
    decide
  by_cases hresource : b.type = "resource"
  · rw [h.addressParts_of_resource hresource]
    exact h.labels
  · rw [h.addressParts_of_ne hresource, List.forall_mem_cons]
    exact ⟨hword _ (addressWord_mem b.type h.type hresource), h.labels⟩

theorem isReadable_of_mem_segments (h : b.IsAddressable) {s : Segment} (hs : s ∈ b.segments) :
    s.IsReadable := by
  obtain ⟨hname, hkey⟩ := Segment.mem_ofParts hs
  obtain ⟨-, hpoint, hbracket⟩ := h.readable_addressParts s.name hname
  refine ⟨fun c hc => ⟨?_, ?_⟩, fun k hk => ?_⟩
  · rintro rfl
    exact hpoint hc
  · rintro rfl
    exact hbracket hc
  · rcases hkey with hnone | hkey
    · rw [hnone] at hk
      cases hk
    · exact h.index k (hkey ▸ hk)

/-- The characters of an address are those of its segments. -/
theorem dotted_reference (h : b.IsAddressable) :
    Text.dotted b.reference = b.segments.flatMap Segment.dotted := by
  have hderived : b.reference = b.derivedReference := by
    have hexplicit := h.derived
    unfold Block.reference
    split
    · rfl
    · rename_i r hr
      rw [hr] at hexplicit
      exact if_pos hexplicit
  have hparts : b.addressParts.filter (· ≠ "") = b.addressParts :=
    List.filter_eq_self.mpr fun s hs => decide_eq_true (h.readable_addressParts s hs).1
  have hsuffix : b.indexSuffix.toList = Segment.keyChars b.index := by
    unfold indexSuffix
    cases b.index <;> rfl
  calc Text.dotted b.reference
      = Text.dotted (Text.joinWith "." b.addressParts) ++ b.indexSuffix.toList := by
        rw [hderived, derivedReference, hparts, Text.dotted, String.toList_append]
        rfl
    _ = b.addressParts.flatMap Text.dotted ++ Segment.keyChars b.index := by
        rw [Text.dotted_joinWith h.addressParts_ne_nil, hsuffix]
    _ = b.segments.flatMap Segment.dotted :=
        (Segment.flatMap_dotted_ofParts b.index h.addressParts_ne_nil).symm

end IsAddressable

end Block

-- ════════════════════════════════════════════════════════════════════════
-- Paths
-- ════════════════════════════════════════════════════════════════════════

namespace Lineage

/-- A module block with an address that can be taken apart. -/
def IsCall (m : RootBlock) : Prop :=
  m.block.type = Block.moduleType ∧ m.block.IsAddressable

/-- The blocks of a path, the outermost first. -/
def pathBlocks (chain : List RootBlock) (b : Block) : List Block :=
  (b :: chain.map RootBlock.block).reverse

/-- The segments of a path. -/
def pathSegments (chain : List RootBlock) (b : Block) : List Segment :=
  (pathBlocks chain b).flatMap Block.segments

section Paths

variable {chain chain' : List RootBlock} {b b' : Block}

theorem isAddressable_of_mem_pathBlocks (hchain : ∀ m ∈ chain, IsCall m) (hb : b.IsAddressable) :
    ∀ c ∈ pathBlocks chain b, c.IsAddressable := by
  intro c hc
  rcases List.mem_cons.mp (List.mem_reverse.mp hc) with rfl | hc
  · exact hb
  · obtain ⟨m, hm, rfl⟩ := List.mem_map.mp hc
    exact (hchain m hm).2

theorem isReadable_of_mem_pathSegments (hchain : ∀ m ∈ chain, IsCall m) (hb : b.IsAddressable) :
    ∀ s ∈ pathSegments chain b, s.IsReadable := by
  intro s hs
  obtain ⟨c, hc, hs⟩ := List.mem_flatMap.mp hs
  exact (isAddressable_of_mem_pathBlocks hchain hb c hc).isReadable_of_mem_segments hs

/-- The characters of a path are those of its segments. -/
theorem dotted_path_joined (hchain : ∀ m ∈ chain, IsCall m) (hb : b.IsAddressable) :
    Text.dotted (b.path (joined chain)) = (pathSegments chain b).flatMap Segment.dotted := by
  have hpath := path_joined_eq_joined_cons ⟨0, b⟩ fun m hm => (hchain m hm).1
  have hreferences : (RootBlock.mk 0 b :: chain).reverse.map RootBlock.reference =
      (pathBlocks chain b).map Block.reference := by
    simp [pathBlocks, RootBlock.reference]
  have hne : (pathBlocks chain b).map Block.reference ≠ [] := by
    simp [pathBlocks]
  calc Text.dotted (b.path (joined chain))
      = Text.dotted (Text.joinWith "." ((pathBlocks chain b).map Block.reference)) := by
        rw [← hreferences]
        exact congrArg Text.dotted hpath
    _ = (pathBlocks chain b).flatMap fun c => Text.dotted c.reference := by
        rw [Text.dotted_joinWith hne, List.flatMap_map]
    _ = (pathBlocks chain b).flatMap fun c => c.segments.flatMap Segment.dotted :=
        List.flatMap_congr fun c hc =>
          (isAddressable_of_mem_pathBlocks hchain hb c hc).dotted_reference
    _ = (pathSegments chain b).flatMap Segment.dotted := by
        rw [pathSegments, List.flatMap_assoc]

/-- The segments of a path determine its blocks. -/
theorem agree_of_pathSegments_eq (hchain : ∀ m ∈ chain, IsCall m) (hb : b.IsAddressable)
    (hchain' : ∀ m ∈ chain', IsCall m) (hb' : b'.IsAddressable)
    (h : pathSegments chain b = pathSegments chain' b') :
    List.Forall₂ Block.Agree (pathBlocks chain b) (pathBlocks chain' b') := by
  refine Text.forall₂_of_flatMap_eq (P := Block.IsAddressable) ?_ ?_
    (isAddressable_of_mem_pathBlocks hchain hb) (isAddressable_of_mem_pathBlocks hchain' hb') h
  · intro c hc hnil
    have hlength := congrArg List.length hnil
    rw [Block.segments, Segment.length_ofParts] at hlength
    exact hc.addressParts_ne_nil (List.length_eq_zero_iff.mp hlength)
  · exact fun c c' cs cs' hc hc' => hc.agree_of_segments_append_eq hc'

theorem forall₂_pathBlocks :
    List.Forall₂ Block.Agree (pathBlocks chain b) (pathBlocks chain' b') ↔
      List.Forall₂ (fun m m' => m.block.Agree m'.block) chain chain' ∧ b.Agree b' := by
  rw [pathBlocks, pathBlocks, List.forall₂_reverse_iff, List.forall₂_cons,
    List.forall₂_map_left_iff, List.forall₂_map_right_iff, and_comm]

/-- The characters of a path determine its blocks: they determine the segments, and these the
blocks. -/
theorem agree_pathBlocks_of_path_eq (hchain : ∀ m ∈ chain, IsCall m) (hb : b.IsAddressable)
    (hchain' : ∀ m ∈ chain', IsCall m) (hb' : b'.IsAddressable)
    (h : b.path (joined chain) = b'.path (joined chain')) :
    List.Forall₂ Block.Agree (pathBlocks chain b) (pathBlocks chain' b') := by
  have hsegments : pathSegments chain b = pathSegments chain' b' := by
    refine Segment.eq_of_flatMap_dotted_eq (isReadable_of_mem_pathSegments hchain hb)
      (isReadable_of_mem_pathSegments hchain' hb') ?_
    rw [← dotted_path_joined hchain hb, ← dotted_path_joined hchain' hb', h]
  exact agree_of_pathSegments_eq hchain hb hchain' hb' hsegments

/-- A path determines the block and the module blocks around it: blocks with the same path have as
many module blocks around them, with the same labels and keys in the same order, and agree
themselves in type, labels and key. -/
theorem agree_of_path_joined_eq (hchain : ∀ m ∈ chain, IsCall m) (hb : b.IsAddressable)
    (hchain' : ∀ m ∈ chain', IsCall m) (hb' : b'.IsAddressable)
    (h : b.path (joined chain) = b'.path (joined chain')) :
    List.Forall₂ (fun m m' => m.block.Agree m'.block) chain chain' ∧ b.Agree b' :=
  forall₂_pathBlocks.mp (agree_pathBlocks_of_path_eq hchain hb hchain' hb' h)

end Paths

namespace Lookalikes

/-- A module block with a key that looks like the end of its address and the address of a further
module block. -/
def outer : Block :=
  { type := "module", labels := ["a"], index := some (.name "0].module.b["),
    range := ⟨"main.tf", 31, 37, by decide⟩ }

/-- A module block below it, whose key is a number. -/
def inner : Block :=
  { type := "module", labels := ["b"], index := some (.number (-1)),
    range := ⟨"a/main.tf", 31, 37, by decide⟩ }

/-- A data source whose key is the text of a number. -/
def source : Block :=
  { type := "data", labels := ["aws_vpc", "main"], index := some (.name "-1"),
    range := ⟨"b/main.tf", 31, 37, by decide⟩ }

theorem isCall_of_mem (first : Nat) : ∀ m ∈ [⟨first + 1, inner⟩, ⟨first, outer⟩], IsCall m := by
  intro m hm
  simp only [List.mem_cons, List.not_mem_nil, or_false] at hm
  rcases hm with rfl | rfl
  · exact ⟨rfl, (by decide : inner.IsAddressable)⟩
  · exact ⟨rfl, (by decide : outer.IsAddressable)⟩

/-- Two readings of one data source, with different keys for the module blocks and a different id
for the source. -/
theorem agree_of_path_source :
    source.path (joined [⟨1, inner⟩, ⟨0, outer⟩]) =
        "module.a[\"0].module.b[\"].module.b[-1].data.aws_vpc.main[\"-1\"]" ∧
      List.Forall₂ (fun m m' : RootBlock => m.block.Agree m'.block) [⟨1, inner⟩, ⟨0, outer⟩]
        [⟨8, inner⟩, ⟨7, outer⟩] ∧
      source.Agree { source with id := "again" } :=
  ⟨by decide +kernel, agree_of_path_joined_eq (isCall_of_mem 0) (by decide) (isCall_of_mem 7)
    (by decide) rfl⟩

end Lookalikes

/-- Blocks in the modules of lineages are told apart by their paths. -/
theorem agree_of_path_moduleName_eq {l l' : Lineage} {b b' : RootBlock}
    (hl : ∀ m ∈ l.chain b, IsCall m) (hb : b.block.IsAddressable)
    (hl' : ∀ m ∈ l'.chain b', IsCall m) (hb' : b'.block.IsAddressable)
    (h : b.block.path (l.moduleName b) = b'.block.path (l'.moduleName b')) :
    List.Forall₂ (fun m m' => m.block.Agree m'.block) (l.chain b) (l'.chain b') ∧
      b.block.Agree b'.block :=
  forall₂_pathBlocks.mp (agree_pathBlocks_of_path_eq hl hb hl' hb' h)

end Lineage

end BlockDoc
