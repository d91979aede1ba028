import BlockDoc.Proofs.Conversion.Success
import BlockDoc.Proofs.Document.Json
import BlockDoc.Proofs.Lineage.Acyclic

/-!
# Conversions come to an end

The visit of a block whose strings are texts always succeeds, so a module is visited to its end or
refused before its first block, for a conflict among the names of its blocks. A conversion of such
modules hence ends with an output or with a conflict, and every output of textual modules is JSON
data.
-/

namespace BlockDoc

theorem Block.isBuildable_of_hasTexts {b : Block} (h : b.hasTexts = true) : b.IsBuildable :=
  exists_document_of_hasTexts [] none none b h

section Visits

variable {l : Lineage} {s : Conversion}

/-- A module whose strings are texts is refused for a conflict, or visited to its end. -/
theorem visitModule_after_cases {m : Module} (h : ∀ b ∈ m.blocks, b.block.hasTexts = true) :
    (∃ e, l.modulePath m = .error e ∧ (visitModule l m).after s = (.error (.conflict e), s)) ∨
      ∃ path t, l.modulePath m = .ok path ∧ (visitModule l m).after s = (.ok (), t) := by
  cases hpath : l.modulePath m with
  | error e => exact .inl ⟨e, rfl, visitModule_after_of_error hpath⟩
  | ok path =>
    obtain ⟨t, ht⟩ := exists_visitBlocks_after_iff.mpr fun b hb _ =>
      Block.isBuildable_of_hasTexts (h b hb)
    exact .inr ⟨path, t, rfl, (visitModule_after_of_ok hpath).trans ht⟩

/-- Modules whose strings are texts are visited one after the other, up to the first that is
refused. -/
theorem visitModules_after_cases {ms : List Module}
    (h : ∀ m ∈ ms, ∀ b ∈ m.blocks, b.block.hasTexts = true) :
    (∃ e t, (∃ m ∈ ms, l.modulePath m = .error e) ∧
        (visitModules l ms).after s = (.error (.conflict e), t)) ∨
      ∃ t, (visitModules l ms).after s = (.ok (), t) := by
  induction ms generalizing s with
  | nil => exact .inr ⟨s, rfl⟩
  | cons m rest ih =>
    obtain ⟨hm, hrest⟩ := List.forall_mem_cons.mp h
    rcases visitModule_after_cases (l := l) (s := s) hm with ⟨e, he, hv⟩ | ⟨path, u, -, hv⟩
    · exact .inl ⟨e, s, ⟨m, List.mem_cons_self .., he⟩,
        Visit.after_bind_eq_error.mpr (.inl hv)⟩
    · rcases ih (s := u) hrest with ⟨e, t, ⟨n, hn, he⟩, ht⟩ | ⟨t, ht⟩
      · exact .inl ⟨e, t, ⟨n, List.mem_cons_of_mem m hn, he⟩,
          Visit.after_bind_eq_error.mpr (.inr ⟨(), u, hv, ht⟩)⟩
      · exact .inr ⟨t, Visit.after_bind_eq_ok.mpr ⟨(), u, hv, ht⟩⟩

end Visits

-- ════════════════════════════════════════════════════════════════════════
-- Outputs
-- ════════════════════════════════════════════════════════════════════════

theorem mem_modules_of_mem_filed {l : Lineage} {ms : List Module} {fs : List Filing}
    (h : Filed l (visits ms) fs) {f : Filing} (hf : f ∈ fs) :
    f.module ∈ ms ∧ f.root ∈ f.module.blocks :=
  mem_visits.mp (List.mem_of_getElem? (h.made f hf).visited)

/-- The output of a conversion of textual modules is JSON data. -/
theorem isJson_outputDatum {l : Lineage} {ms : List Module} {output : Collection Document}
    (h : ∀ m ∈ ms, ∀ b ∈ m.blocks, b.block.isTextual = true)
    (hconvert : (convert l ms).outcome = .ok output) : (outputDatum output).IsJson := by
  obtain ⟨fs, hfs, rfl⟩ := exists_filed_of_convert hconvert
  have hdocuments : ∀ i ∈ fs.map Filing.item, i.2.IsJson := by
    intro i hi
    obtain ⟨f, hf, rfl⟩ := List.mem_map.mp hi
    obtain ⟨hm, hb⟩ := mem_modules_of_mem_filed hfs hf
    obtain ⟨path, -, hbuilt⟩ := (hfs.made f hf).built
    exact Block.isJson_of_document (h _ hm _ hb) hbuilt
  refine .object fun e he => ?_
  obtain ⟨g, hg, rfl⟩ := List.mem_map.mp he
  refine .list fun x hx => ?_
  obtain ⟨d, hd, rfl⟩ := List.mem_map.mp hx
  exact (Collection.forall_mem_ofItems hdocuments g hg d hd).toDatum

/-- A conversion of modules whose strings and keys are texts ends in an acyclic lineage: the
recursions for the names of modules end, and there is an output, all of it JSON data, or a conflict
among the names of the blocks of a module. No other fault ends it. -/
theorem convert_isJson_or_conflict (l : Lineage) (ms : List Module) (hl : l.IsAcyclic)
    (h : ∀ m ∈ ms, ∀ b ∈ m.blocks, b.block.isTextual = true) :
    (∀ b : RootBlock, ∃ name, l.Named b name) ∧
      ((∃ e, (convert l ms).outcome = .error (.conflict e) ∧
          ∃ m ∈ ms, l.modulePath m = .error e) ∨
        ∃ output, (convert l ms).outcome = .ok output ∧ (outputDatum output).IsJson) := by
  refine ⟨hl.exists_named, ?_⟩
  have houtcome := convert_outcome l ms
  have htexts : ∀ m ∈ ms, ∀ b ∈ m.blocks, b.block.hasTexts = true :=
    fun m hm b hb => Block.hasTexts_of_isTextual (h m hm b hb)
  rcases visitModules_after_cases (l := l) (s := .start) htexts with ⟨e, t, hconflict, hv⟩ | ⟨t, hv⟩
  · rw [hv] at houtcome
    exact .inl ⟨e, houtcome, hconflict⟩
  · rw [hv] at houtcome
    exact .inr ⟨t.output, houtcome, isJson_outputDatum h houtcome⟩

namespace Fallbacks

/-- An attribute with its expression. -/
def assign (name : String) (value : TypedValue) (raw : String) : Attribute :=
  { name, value, raw }

/-- A block on the first three lines of a file. -/
def block (type : String) (labels : List String) (attributes : List Attribute)
    (children : List Block) : Block where
  type := type
  labels := labels
  attributes := attributes
  children := children
  range := ⟨"main.tf", 1, 3, by decide⟩

/-- A fraction whose nearest floating-point number is infinite. -/
def hugeFraction : String :=
  String.ofList (List.replicate 310 '9' ++ ['.', '5'])

/-- A tag whose values are not understood. -/
def capsule : ForeignTag := ⟨"capsule", by decide⟩

/-- The call of the second module. -/
def call : RootBlock := ⟨1, block "module" ["m"] [] []⟩

/-- Two modules in which every value leads to a fallback: a type that cannot be decoded, numbers
that are malformed, infinite or too large, an absent payload, a tag that is not understood within a
list, and a template whose collection is a string. -/
def modules : List Module :=
  [⟨[⟨0, block "variable" ["v"]
        [assign "type" (.string .null) "list(",
          assign "default" (.number (some "NaN")) "0/0"]
        []⟩, call]⟩,
   ⟨[⟨2, block "resource" ["a", "b"]
        [assign "malformed" (.number (some "1.2.3")) "v",
         assign "infinite" (.number (some "-Infinity")) "w",
         assign "huge" (.number (some hugeFraction)) "x",
         assign "absent" (.record .object none) "y",
         assign "opaque" (.sequence .list (some [.foreign capsule (.float .nan)])) "z"]
        [block "dynamic" ["k"] [assign "for_each" (.string (.str "k")) "k"] []]⟩]⟩]

/-- The second module is below the call. -/
def lineage : Lineage := [(2, call)]

/-- All these values have fallbacks: there is an output, and it is JSON data. -/
theorem convert_isJson_modules :
    lineage.IsAcyclic ∧ (∀ m ∈ modules, ∀ b ∈ m.blocks, b.block.isTextual = true) ∧
      ∃ output, (convert lineage modules).outcome = .ok output ∧ (outputDatum output).IsJson := by
  have hl : lineage.IsAcyclic := Lineage.isAcyclic_of_key_lt (by decide)
  have htextual : ∀ m ∈ modules, ∀ b ∈ m.blocks, b.block.isTextual = true := by decide +kernel
  refine ⟨hl, htextual, ?_⟩
  have hok : (convert lineage modules).outcome.toBool = true := by decide +kernel
  obtain ⟨-, ⟨e, he, -⟩ | houtput⟩ := convert_isJson_or_conflict lineage modules hl htextual
  · rw [he] at hok
    cases hok
  · exact houtput

end Fallbacks

end BlockDoc
