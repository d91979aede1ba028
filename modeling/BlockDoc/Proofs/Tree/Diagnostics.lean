import BlockDoc.Proofs.Table
import BlockDoc.Proofs.Tree.Numerals
import BlockDoc.Proofs.Tree.Outcomes
import BlockDoc.Yaml.Host
import Mathlib.Data.List.Forall2

/-!
# Diagnostics of a tree

The diagnostics of a tree decide one thing: whether a load ends before the modules are looked at. It
does so if errors are fatal and there is an error among the diagnostics, whatever the modules are.
Otherwise a load does what it does without the diagnostics, except for the notes: all diagnostics
are noted first.

Loads with different options, and loads of different mappings, are compared stage by stage.

## Main definitions

* `Text.IsInAnyCase` — a word in small letters, capitals, or both
* `Diagnostic.NamesError` — the diagnostics that are errors
* `Datum.without` — a mapping without one of its members
* `TreeImporter.stopping` — an importer with errors made fatal, or made harmless
* `TreeImporter.GatedBy` — the part that diagnostics have in a load

## Main results

* `TreeImporter.gatedBy_of_valid` — valid diagnostics have this part in every load
-/

namespace BlockDoc

-- ════════════════════════════════════════════════════════════════════════
-- Letter case
-- ════════════════════════════════════════════════════════════════════════

/-- The text is the word, which is in small letters, with any of the letters as capitals. -/
def Text.IsInAnyCase (word s : String) : Prop :=
  List.Forall₂ (fun l c => c = l ∨ c = l.toUpper) word.toList s.toList

namespace Text

theorem toLower_eq_iff {l c : Char} (hl : l.isLower = true) :
    c.toLower = l ↔ c = l ∨ c = l.toUpper := by
  have hnat (x y : Char) : x = y ↔ x.val.toNat = y.val.toNat := by
    rw [Char.ext_iff, UInt32.toNat_inj]
  have hdown : ('a'.val - 'A'.val).toNat = 32 := rfl
  have hup : ('A'.val - 'a'.val).toNat = 2 ^ 32 - 32 := rfl
  have hsmall : 'a'.val.toNat = 97 ∧ 'z'.val.toNat = 122 := ⟨rfl, rfl⟩
  have hcapital : 'A'.val.toNat = 65 ∧ 'Z'.val.toNat = 90 := ⟨rfl, rfl⟩
  have hrange : 'a'.val ≤ l.val ∧ l.val ≤ 'z'.val := by
    change (decide ('a'.val ≤ l.val) && decide (l.val ≤ 'z'.val)) = true at hl
    rwa [Bool.and_eq_true, decide_eq_true_iff, decide_eq_true_iff] at hl
  unfold Char.toLower Char.toUpper
  simp only [hnat, ge_iff_le, UInt32.le_iff_toNat_le, apply_dite Char.val, apply_dite UInt32.toNat,
    UInt32.toNat_add, hdown, hup, hsmall, hcapital] at hrange ⊢
  split <;> omega

theorem lowerAscii_eq_iff {word s : String} (h : ∀ l ∈ word.toList, l.isLower = true) :
    lowerAscii s = word ↔ IsInAnyCase word s := by
  have hchars : lowerAscii s = word ↔ s.toList.map Char.toLower = word.toList := by
    rw [lowerAscii, ← String.toList_inj, String.toList_ofList]
  rw [hchars, IsInAnyCase]
  generalize word.toList = ls at h
  generalize s.toList = cs
  induction ls generalizing cs with
  | nil => simp
  | cons l ls ih =>
    obtain ⟨hl, hls⟩ := List.forall_mem_cons.mp h
    cases cs with
    | nil => simp
    | cons c cs =>
      rw [List.map_cons, List.cons.injEq, List.forall₂_cons]
      exact and_congr (toLower_eq_iff hl) (ih hls cs)

end Text

namespace Diagnostic

/-- The severity of the diagnostic is the word for errors, in any letter case. -/
def NamesError (d : Diagnostic) : Prop :=
  Text.IsInAnyCase "error" d.severity

theorem isError_iff (d : Diagnostic) : d.isError = true ↔ d.NamesError := by
  have hlower : "error".toList.all Char.isLower = true := by decide
  rw [isError, decide_eq_true_iff]
  exact Text.lowerAscii_eq_iff (List.all_eq_true.mp hlower)

instance (d : Diagnostic) : Decidable d.NamesError :=
  decidable_of_iff (d.isError = true) d.isError_iff

end Diagnostic

theorem errorTexts_eq (ds : List Diagnostic) :
    errorTexts ds = (ds.filter fun d => d.NamesError).map Diagnostic.text := by
  have hsame : Diagnostic.isError = fun d => decide d.NamesError := by
    funext d
    exact Bool.eq_iff_iff.mpr (d.isError_iff.trans decide_eq_true_iff.symm)
  rw [errorTexts, hsame]

-- ════════════════════════════════════════════════════════════════════════
-- Mappings
-- ════════════════════════════════════════════════════════════════════════

namespace Datum

/-- The entries of a mapping without the one under a name. -/
def without (entries : List (Datum × Datum)) (name : String) : List (Datum × Datum) :=
  entries.filter fun e => !(e.1 == .str name)

theorem beq_str_iff {key : Datum} {name : String} :
    (key == .str name) = true ↔ key = .str name := by
  constructor
  · intro h
    change sameKey key (.str name) = true at h
    cases key with
    | str s => exact congrArg Datum.str (eq_of_beq h)
    | _ => simp [sameKey, toInt?] at h
  · rintro rfl
    exact beq_self_eq_true name

variable (entries : List (Datum × Datum)) {name other : String}

theorem member?_without_self (name : String) : member? (without entries name) name = none := by
  cases h : member? (without entries name) name with
  | none => rfl
  | some d =>
    obtain ⟨key, hkey, hmem⟩ := Table.exists_mem_of_find? h
    have htest := (List.mem_filter.mp hmem).2
    rw [hkey] at htest
    cases htest

theorem member?_without_of_ne (h : other ≠ name) :
    member? (without entries name) other = member? entries other := by
  induction entries with
  | nil => rfl
  | cons e rest ih =>
    obtain ⟨key, value⟩ := e
    unfold without member? at ih ⊢
    rw [List.filter_cons]
    by_cases hkey : (key == .str name) = true
    · have hother : (key == .str other) = false := by
        rw [beq_str_iff.mp hkey]
        show (name == other) = false
        exact beq_eq_false_iff_ne.mpr (Ne.symm h)
      simp [Table.find?, hkey, hother, ih]
    · simp [Table.find?, hkey, ih]

end Datum

-- ════════════════════════════════════════════════════════════════════════
-- Notes and faults of a load
-- ════════════════════════════════════════════════════════════════════════

theorem itemsOf_list (items : List Datum) : itemsOf (.list items) = .ok items := by
  cases items with
  | nil => rfl
  | cons d rest => rfl

theorem checkDiagnosticItems_of_valid {items : List Datum} {ds : List Diagnostic}
    (h : List.Forall₂ (fun d x => Diagnostic.check d = .valid x) items ds) :
    checkDiagnosticItems items = .ok ds := by
  induction h with
  | nil => rfl
  | cons hd _ ih =>
    unfold checkDiagnosticItems
    rw [hd, ih]
    rfl

section Entries

variable {entries : List (Datum × Datum)} {ds : List Diagnostic}

theorem checkDiagnostics_of_valid {items : List Datum}
    (hitems : Datum.member? entries "diagnostics" = some (.list items))
    (hvalid : List.Forall₂ (fun d x => Diagnostic.check d = .valid x) items ds) :
    checkDiagnostics entries = .ok ds := by
  unfold checkDiagnostics
  rw [hitems, Option.getD_some, itemsOf_list]
  exact checkDiagnosticItems_of_valid hvalid

theorem checkDiagnostics_of_none (h : Datum.member? entries "diagnostics" = none) :
    checkDiagnostics entries = .ok [] := by
  unfold checkDiagnostics
  rw [h]
  rfl

theorem checkModules_without (entries : List (Datum × Datum)) :
    checkModules (Datum.without entries "diagnostics") = checkModules entries := by
  unfold checkModules
  rw [Datum.member?_without_of_ne entries (by decide)]

end Entries

/-- The fault is another one than errors that the parser has reported. -/
def LoadFault.IsOther (f : LoadFault) : Prop :=
  ∀ errors, f ≠ .refused (.reported errors)

section Faults

open LoadFault

theorem treePart_isOther {α : Type} (x : Checked α) : FailsOnlyWith IsOther (treePart x) := by
  cases x with
  | valid a => exact .ok a
  | invalid findings => exact .error nofun
  | broken b => exact .error nofun

theorem checkParent_isOther (entries : List (Datum × Datum)) :
    FailsOnlyWith IsOther (checkParent entries) := by
  unfold checkParent
  split
  · exact .ok _
  · exact (treePart_isOther _).map some

theorem checkBlocks_isOther (entries : List (Datum × Datum)) :
    FailsOnlyWith IsOther (checkBlocks entries) :=
  treePart_isOther _

theorem checkModuleItems_isOther (items : List Datum) (position : Nat) :
    FailsOnlyWith IsOther (checkModuleItems position items) := by
  induction items generalizing position with
  | nil => exact .ok _
  | cons item rest ih =>
    cases item with
    | map entries =>
      refine (checkParent_isOther entries).bind fun parent _ => ?_
      refine (checkBlocks_isOther entries).bind fun blocks _ => ?_
      exact (ih (position + 1)).bind fun others _ => .ok _
    | _ => exact .error nofun

theorem checkModules_isOther (entries : List (Datum × Datum)) :
    FailsOnlyWith IsOther (checkModules entries) := by
  unfold checkModules
  split
  · exact checkModuleItems_isOther _ 0
  · exact .error nofun

theorem LoadFault.IsDangling.isOther {f : LoadFault} (h : f.IsDangling) : f.IsOther := by
  rintro errors rfl
  cases h

end Faults

namespace TreeImporter

theorem noteDiagnostics_notes (ds : List Diagnostic) :
    (noteDiagnostics ds).notes = ds.map Diagnostic.note := by
  induction ds with
  | nil => rfl
  | cons d rest ih => exact congrArg (d.note :: ·) ih

section Stages

variable (t : TreeImporter) (entries : List (Datum × Datum))

theorem loadModules_isOther :
    FailsOnlyWith LoadFault.IsOther (t.loadModules entries).result.1 := by
  unfold loadModules
  split
  · next f hf => exact .error (checkModules_isOther entries f hf)
  · split
    · exact .error nofun
    · next list _ _ _ =>
      rcases t.link_cases list with ⟨f, hf, hdangling⟩ | ⟨modules, hmodules⟩
      · rw [hf]
        exact .error hdangling.isOther
      · rw [hmodules]
        exact .ok modules

/-- Behind the notes on diagnostics, there is only the one at the end of a load. -/
theorem level_of_mem_notes_loadModules :
    ∀ r ∈ (t.loadModules entries).notes, r.level = .info := by
  unfold loadModules
  split
  · nofun
  · split
    · nofun
    · unfold link
      dsimp only
      split
      · nofun
      · intro r hr
        obtain rfl := List.mem_singleton.mp hr
        rfl

/-- The importer with errors made fatal, or made harmless. -/
def stopping (stop : Bool) : TreeImporter :=
  { t with options := { t.options with stopOnError := stop } }

/-- The result of a load with errors made fatal, or made harmless, for the loads to come. -/
def withStop (stop : Bool) (r : Except LoadFault (List Module) × TreeImporter) :
    Except LoadFault (List Module) × TreeImporter :=
  (r.1, r.2.stopping stop)

theorem link_stopping (list : ModuleList) (stop : Bool) :
    (t.stopping stop).link list = withStop stop <$> t.link list := by
  unfold link stopping
  dsimp only
  split
  · rfl
  · rfl

theorem loadModules_stopping (stop : Bool) :
    (t.stopping stop).loadModules entries = withStop stop <$> t.loadModules entries := by
  unfold loadModules
  split
  · rfl
  · split
    · rfl
    · exact t.link_stopping _ stop

theorem loadModules_without :
    t.loadModules (Datum.without entries "diagnostics") = t.loadModules entries := by
  unfold loadModules
  rw [checkModules_without]

end Stages

-- ════════════════════════════════════════════════════════════════════════
-- Diagnostics
-- ════════════════════════════════════════════════════════════════════════

/-- The part that the diagnostics `ds` have in a load by `t` of the mapping of `entries` from
`files`. -/
structure GatedBy (t : TreeImporter) (host : Host) (files : FileTree)
    (entries : List (Datum × Datum)) (ds : List Diagnostic) : Prop where
  /-- If errors are not fatal, the load comes to what it comes to without the diagnostics. -/
  off : ∀ bare, readTree host bare t.path = .ok (Datum.without entries "diagnostics") →
    ((t.stopping false).get host files).result = ((t.stopping false).get host bare).result
  reports_iff : (∃ errors, ((t.stopping true).get host files).result.1 =
    .error (.refused (.reported errors))) ↔ ∃ d ∈ ds, d.NamesError
  /-- If errors are fatal and there are some, all of them are reported and nothing else is done. -/
  stopped : (∃ d ∈ ds, d.NamesError) → ((t.stopping true).get host files).result =
    (.error (.refused (.reported ((ds.filter fun d => d.NamesError).map Diagnostic.text))),
      t.stopping true)
  /-- If errors are fatal and there are none, the load comes to what it comes to otherwise. -/
  passed : (¬∃ d ∈ ds, d.NamesError) → ((t.stopping true).get host files).result =
    withStop true ((t.stopping false).get host files).result
  /-- The diagnostics are noted before anything else. -/
  first : ∀ stop, ds.map Diagnostic.note <+: ((t.stopping stop).get host files).notes
  /-- They are the only warnings. -/
  once : ∀ stop, (((t.stopping stop).get host files).notes.filter fun r => r.level = .warning) =
    ds.map Diagnostic.note

section Gate

variable {t : TreeImporter} {host : Host} {files : FileTree} {entries : List (Datum × Datum)}
  {options : ParserOptions} {ds : List Diagnostic}

theorem get_of_read (ht : t.modules = none) (hread : readTree host files t.path = .ok entries) :
    t.get host files = t.loadEntries entries := by
  unfold get load
  rw [ht, hread]

theorem refuseErrors_of_exists (hstop : options.stopOnError = true)
    (h : ∃ d ∈ ds, d.NamesError) :
    refuseErrors options ds =
      .error (.reported ((ds.filter fun d => d.NamesError).map Diagnostic.text)) := by
  obtain ⟨d, hd, herror⟩ := h
  have hmem : d.text ∈ (ds.filter fun d => d.NamesError).map Diagnostic.text :=
    List.mem_map_of_mem (List.mem_filter.mpr ⟨hd, decide_eq_true herror⟩)
  have hsome : ((ds.filter fun d => d.NamesError).map Diagnostic.text).isEmpty = false :=
    List.isEmpty_eq_false_iff.mpr (List.ne_nil_of_mem hmem)
  rw [refuseErrors, errorTexts_eq, hstop, hsome]
  rfl

theorem refuseErrors_of_not (h : options.stopOnError = false ∨ ¬∃ d ∈ ds, d.NamesError) :
    refuseErrors options ds = .ok () := by
  unfold refuseErrors
  rcases h with hstop | hnone
  · rw [hstop]
    rfl
  · have hnil : (ds.filter fun d => d.NamesError) = [] := by
      refine List.filter_eq_nil_iff.mpr ?_
      intro d hd herror
      exact hnone ⟨d, hd, of_decide_eq_true herror⟩
    rw [errorTexts_eq, hnil, List.map_nil, List.isEmpty_nil, Bool.not_true, Bool.and_false]
    rfl

theorem loadEntries_of_refused (hds : checkDiagnostics entries = .ok ds) {e : Refusal}
    (h : refuseErrors t.options ds = .error e) :
    t.loadEntries entries = ⟨(.error (.refused e), t), ds.map Diagnostic.note⟩ := by
  unfold loadEntries
  rw [hds]
  apply Journaled.ext
  · simp only [Journaled.bind_result, h, Journaled.pure_result]
  · simp only [Journaled.bind_notes, h, Journaled.pure_notes, noteDiagnostics_notes,
      List.append_nil]

theorem loadEntries_of_passed (hds : checkDiagnostics entries = .ok ds)
    (h : refuseErrors t.options ds = .ok ()) :
    t.loadEntries entries = ⟨(t.loadModules entries).result,
      ds.map Diagnostic.note ++ (t.loadModules entries).notes⟩ := by
  unfold loadEntries
  rw [hds]
  apply Journaled.ext
  · simp only [Journaled.bind_result, h]
  · simp only [Journaled.bind_notes, h, noteDiagnostics_notes]

/-- The notes of a load are those on the diagnostics, and then at most the one at its end. -/
theorem exists_notes_loadEntries (t : TreeImporter) (hds : checkDiagnostics entries = .ok ds) :
    ∃ rest, (t.loadEntries entries).notes = ds.map Diagnostic.note ++ rest ∧
      ∀ r ∈ rest, r.level = .info := by
  cases h : refuseErrors t.options ds with
  | error e =>
    rw [loadEntries_of_refused hds h]
    exact ⟨[], (List.append_nil _).symm, nofun⟩
  | ok u =>
    rw [loadEntries_of_passed hds h]
    exact ⟨_, rfl, t.level_of_mem_notes_loadModules entries⟩

theorem filter_warning_notes {rest : List LogRecord} (h : ∀ r ∈ rest, r.level = .info) :
    (ds.map Diagnostic.note ++ rest).filter (fun r => r.level = .warning) =
      ds.map Diagnostic.note := by
  have hds : (ds.map Diagnostic.note).filter (fun r => r.level = .warning) =
      ds.map Diagnostic.note := by
    refine List.filter_eq_self.mpr ?_
    intro r hr
    obtain ⟨d, -, rfl⟩ := List.mem_map.mp hr
    rfl
  have hrest : rest.filter (fun r => r.level = .warning) = [] := by
    refine List.filter_eq_nil_iff.mpr ?_
    intro r hr hwarning
    rw [h r hr] at hwarning
    cases of_decide_eq_true hwarning
  rw [List.filter_append, hds, hrest, List.append_nil]

end Gate

/-- Diagnostics that are valid decide whether a load ends before the modules are looked at, and
nothing else, whatever the other members of the mapping are. -/
theorem gatedBy_of_valid (t : TreeImporter) (ht : t.modules = none) (host : Host) (files : FileTree)
    (entries : List (Datum × Datum)) (hread : readTree host files t.path = .ok entries)
    (items : List Datum) (hitems : Datum.member? entries "diagnostics" = some (.list items))
    (ds : List Diagnostic)
    (hvalid : List.Forall₂ (fun d x => Diagnostic.check d = .valid x) items ds) :
    t.GatedBy host files entries ds := by
  have hds := checkDiagnostics_of_valid hitems hvalid
  have hget (stop : Bool) : (t.stopping stop).get host files =
      (t.stopping stop).loadEntries entries := get_of_read ht hread
  have hoff : ((t.stopping false).get host files).result =
      ((t.stopping false).loadModules entries).result := by
    rw [hget, loadEntries_of_passed hds (refuseErrors_of_not (.inl rfl))]
  have hstopped (h : ∃ d ∈ ds, d.NamesError) := by
    have hload := loadEntries_of_refused (t := t.stopping true) hds (refuseErrors_of_exists rfl h)
    exact congrArg Journaled.result ((hget true).trans hload)
  have hpassed (h : ¬∃ d ∈ ds, d.NamesError) : ((t.stopping true).get host files).result =
      ((t.stopping true).loadModules entries).result := by
    rw [hget, loadEntries_of_passed hds (refuseErrors_of_not (.inr h))]
  refine ⟨?_, ⟨?_, ?_⟩, hstopped, ?_, ?_, ?_⟩
  · intro bare hbare
    have hnone := checkDiagnostics_of_none (Datum.member?_without_self entries "diagnostics")
    have hgetBare : (t.stopping false).get host bare =
        (t.stopping false).loadEntries (Datum.without entries "diagnostics") :=
      get_of_read ht hbare
    rw [hoff, hgetBare, loadEntries_of_passed hnone (refuseErrors_of_not (.inl rfl)),
      loadModules_without]
  · rintro ⟨errors, hreport⟩
    by_contra hnot
    rw [hpassed hnot] at hreport
    exact loadModules_isOther _ entries _ hreport errors rfl
  · intro h
    exact ⟨_, congrArg Prod.fst (hstopped h)⟩
  · intro h
    rw [hpassed h, hoff, loadModules_stopping, loadModules_stopping]
    rfl
  · intro stop
    obtain ⟨rest, hnotes, -⟩ := exists_notes_loadEntries (t.stopping stop) hds
    rw [hget, hnotes]
    exact List.prefix_append _ rest
  · intro stop
    obtain ⟨rest, hnotes, hrest⟩ := exists_notes_loadEntries (t.stopping stop) hds
    rw [hget, hnotes]
    exact filter_warning_notes hrest

namespace Reported

/-- The file of a tree with the given members, in JSON. -/
def fileWith (members : String) : FileTree where
  files := [(["tree.json"],
    ("\x7b" ++ members ++ "\x7d").toList.map fun c => UInt8.ofNat c.toNat)]

/-- Two diagnostics in JSON, the first one of which is an error. -/
def reportText : String :=
  "\"diagnostics\": [\x7b\"severity\": \"eRRor\", \"summary\": \"unsupported\", " ++
    "\"filename\": \"main.tf\", \"line\": 3\x7d, " ++
    "\x7b\"severity\": \"warning\", \"summary\": \"deprecated\"\x7d]"

/-- Modules in JSON that are no list. -/
def modulesText : String := "\"modules\": 5"

/-- The diagnostics as data. -/
def reportItems : List Datum :=
  [.object [("severity", .str "eRRor"), ("summary", .str "unsupported"),
     ("filename", .str "main.tf"), ("line", .int 3)],
   .object [("severity", .str "warning"), ("summary", .str "deprecated")]]

/-- The diagnostics. -/
def report : List Diagnostic :=
  [⟨"eRRor", "unsupported", some "main.tf", some 3⟩, ⟨"warning", "deprecated", none, none⟩]

/-- The entries of the mapping, whose modules are no list. -/
def entries : List (Datum × Datum) :=
  [(.str "diagnostics", .list reportItems), (.str "modules", .int 5)]

set_option maxRecDepth 10000 in
/-- The report comes before the fault of the modules, which is the outcome without it. -/
theorem gatedBy_report :
    (start "tree.json" {}).result.GatedBy .plain (fileWith (reportText ++ ", " ++ modulesText))
        entries report ∧
      readTree .plain (fileWith modulesText) (Path.ofText "tree.json") =
        .ok (Datum.without entries "diagnostics") ∧
      ∃ d ∈ report, d.NamesError := by
  have hread : readTree .plain (fileWith (reportText ++ ", " ++ modulesText))
      (Path.ofText "tree.json") = .ok entries := rfl
  have hvalid : List.Forall₂ (fun d x => Diagnostic.check d = .valid x) reportItems report :=
    .cons rfl (.cons rfl .nil)
  refine ⟨gatedBy_of_valid _ rfl .plain _ _ hread reportItems rfl report hvalid, rfl, ?_⟩
  decide

end Reported

end TreeImporter

end BlockDoc
