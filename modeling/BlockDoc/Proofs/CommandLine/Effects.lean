import BlockDoc.CommandLine.Run
import BlockDoc.Proofs.Files.Frame
import BlockDoc.Proofs.Outcome
import BlockDoc.Yaml.Host

/-!
# What a run writes

A run that fails writes nothing but log records: it prints nothing, and the file for its document is
as it was. Every step up to the last one is quiet, that is, it changes the log file at most, and the
last step writes only after everything has been done that can fail. A run that succeeds writes the
text of its document once, to the file if one is named, and prints it otherwise.

## Main definitions

* `Settings.logPlace?`, `Arguments.outputPlace?` — where the log and the document are written
* `World.Quiet` — the log file has changed at most
* `IsDocument` — the document that arguments and settings call for
* `Report.WroteNothing`, `Report.Wrote` — what a run has left behind
* `Report.IsAtomic` — a run has written the text of its document, or nothing

## Main results

* `run_isAtomic` — runs are atomic on every host
-/

namespace BlockDoc

/-- The place of the log file, if there is one. -/
def Settings.logPlace? (s : Settings) (files : FileTree) : Option (List String) :=
  match LogSetup.fileOf s.logFile with
  | .ok file => file.bind files.place?
  | .error _ => none

/-- The place of the file for the document, if one is named. -/
def Arguments.outputPlace? (a : Arguments) (files : FileTree) : Option (List String) :=
  a.outputName?.bind files.place?

-- ════════════════════════════════════════════════════════════════════════
-- The log file
-- ════════════════════════════════════════════════════════════════════════

namespace LogSetup

theorem sameBut_keep (setup : LogSetup) (files : FileTree) (notes : List LogRecord) :
    files.SameBut (setup.file.bind files.place?).toList (setup.keep files notes) := by
  unfold keep
  cases setup.file with
  | none => exact .refl _ files
  | some name =>
    dsimp only
    split
    · next h => exact FileTree.sameBut_append h
    · exact .refl _ files

theorem sameBut_openFile {files opened : FileTree} {file : Option String}
    (h : openFile files file = .ok opened) :
    files.SameBut (file.bind files.place?).toList opened := by
  cases file with
  | none =>
    obtain rfl := Except.ok.inj h
    exact .refl _ files
  | some name =>
    unfold openFile at h
    dsimp only at h
    cases happend : files.append name [] with
    | error f =>
      rw [happend] at h
      cases h
    | ok there =>
      rw [happend] at h
      obtain rfl := Except.ok.inj h
      exact FileTree.sameBut_append happend

theorem file_of_withFile {s : Settings} {verbose : Bool} {file : Option String} {setup : LogSetup}
    (h : withFile s verbose file = .ok setup) : setup.file = file := by
  unfold withFile at h
  cases hformat : formatOf s.logFormat with
  | error e =>
    rw [hformat] at h
    cases h
  | ok format =>
    rw [hformat] at h
    cases verbose with
    | true =>
      obtain rfl := Except.ok.inj h
      rfl
    | false =>
      cases hlevel : levelOf s.logLevel with
      | error e =>
        rw [hlevel] at h
        cases h
      | ok level =>
        rw [hlevel] at h
        obtain rfl := Except.ok.inj h
        rfl

/-- Setting up the log changes the log file at most, whether it succeeds or not. -/
theorem sameBut_ofSettings (s : Settings) (verbose : Bool) (files : FileTree) :
    files.SameBut (s.logPlace? files).toList (ofSettings s verbose files).2 ∧
      ∀ setup, (ofSettings s verbose files).1 = .ok setup →
        setup.file.bind files.place? = s.logPlace? files := by
  unfold ofSettings Settings.logPlace?
  cases hfile : fileOf s.logFile with
  | error e =>
    refine ⟨.refl _ files, fun setup h => ?_⟩
    cases h
  | ok file =>
    dsimp only
    cases hopen : openFile files file with
    | error e =>
      refine ⟨.refl _ files, fun setup h => ?_⟩
      cases h
    | ok opened =>
      refine ⟨sameBut_openFile hopen, fun setup h => ?_⟩
      rw [file_of_withFile h]

end LogSetup

-- ════════════════════════════════════════════════════════════════════════
-- Quiet steps
-- ════════════════════════════════════════════════════════════════════════

/-- Nothing has been printed, and no file has changed but the log file. -/
structure World.Quiet (log : Option String) (w v : World) : Prop where
  printed : v.printed = w.printed
  files : w.files.SameBut (log.bind w.files.place?).toList v.files

namespace World

variable {log : Option String} {u v w : World}

theorem Quiet.refl (log : Option String) (w : World) : Quiet log w w :=
  ⟨rfl, .refl _ _⟩

theorem Quiet.logPlace_eq (h : Quiet log w v) :
    log.bind v.files.place? = log.bind w.files.place? :=
  h.files.bind_place?_eq log

theorem Quiet.trans (h : Quiet log w v) (h' : Quiet log v u) : Quiet log w u where
  printed := h'.printed.trans h.printed
  files := by
    have hfiles := h'.files
    rw [h.logPlace_eq] at hfiles
    exact h.files.trans hfiles

end World

namespace Action

variable {α β : Type} {setup : LogSetup} {log : Option String}

/-- A step changes the log file at most, whether it succeeds or not. -/
def IsQuiet (log : Option String) (x : Action α) : Prop :=
  ∀ w, World.Quiet log w (Journaled.after x w).2

theorem IsQuiet.bind {x : Action α} {f : α → Action β} (hx : IsQuiet log x)
    (hf : ∀ a, IsQuiet log (f a)) : IsQuiet log (x >>= f) := by
  intro w
  have hw := hx w
  rw [Journaled.after_bind]
  rcases hafter : Journaled.after x w with ⟨outcome, v⟩
  rw [hafter] at hw
  cases outcome with
  | ok a => exact hw.trans (hf a v)
  | error e => exact hw

theorem isQuiet_files (log : Option String) : IsQuiet log Action.files :=
  World.Quiet.refl log

theorem after_ofExcept (x : Except RunFault α) (w : World) :
    Journaled.after (ofExcept x : Action α) w = (x, w) := by
  cases x with
  | ok a => rfl
  | error e => rfl

/-- A step that follows on a result takes place if there is one, in the world as it was. -/
theorem after_ofExcept_bind_eq_ok {x : Except RunFault α} {f : α → Action β} {w v : World} {b : β}
    (h : Journaled.after ((ofExcept x : Action α) >>= f) w = (.ok b, v)) :
    ∃ a, x = .ok a ∧ Journaled.after (f a) w = (.ok b, v) := by
  obtain ⟨a, t, hx, hf⟩ := Journaled.after_bind_eq_ok.mp h
  rw [after_ofExcept] at hx
  obtain ⟨rfl, rfl⟩ := Prod.mk.inj hx
  exact ⟨a, rfl, hf⟩

theorem IsQuiet.quiet {x : Action α} (hx : IsQuiet log x) {w v : World}
    {outcome : Except RunFault α} (h : Journaled.after x w = (outcome, v)) :
    World.Quiet log w v := by
  have hw := hx w
  rwa [h] at hw

theorem isQuiet_ofExcept (log : Option String) (x : Except RunFault α) :
    IsQuiet log (ofExcept x : Action α) := by
  intro w
  rw [after_ofExcept]
  exact .refl log w

theorem after_noting (x : Attempt RunFault α) (w : World) :
    Journaled.after (noting setup x) w =
      (x.outcome, { w with files := setup.keep w.files (x.run.notes.filter setup.admits) }) :=
  rfl

theorem isQuiet_noting (setup : LogSetup) (x : Attempt RunFault α) :
    IsQuiet setup.file (noting setup x) :=
  fun w => ⟨rfl, setup.sameBut_keep w.files _⟩

end Action

-- ════════════════════════════════════════════════════════════════════════
-- The document
-- ════════════════════════════════════════════════════════════════════════

theorem Attempt.outcome_asRun {ε α : Type} (f : ε → RunFault) (x : Attempt ε α) :
    (x.asRun f).outcome = x.outcome.mapError f :=
  rfl

/-- The document of the modules that the importer finds in the files, with the options from the
settings and the arguments. -/
inductive IsDocument (host : Host) (a : Arguments) (s : Settings) (files : FileTree) :
    Datum → Prop
  | of_output {options : ParserOptions} {importer : Importer} {modules : List Module}
      {lineage : Lineage} {output : Collection Document}
      (hoptions : s.parserOptions = .ok options)
      (himporter : (Importer.create a.importer a.tree (a.overlay options)).outcome = .ok importer)
      (hmodules : (importer.modules host files).outcome = .ok (modules, lineage))
      (hconvert : (convert lineage modules).outcome = .ok output) :
      IsDocument host a s files (outputDatum output)

section Document

variable {host : Host} {setup : LogSetup} {a : Arguments} {s : Settings} {w v : World} {d : Datum}

theorem eq_ok_of_mapError {ε δ α : Type} {f : ε → δ} {x : Except ε α} {b : α}
    (h : x.mapError f = .ok b) : x = .ok b := by
  cases x with
  | error e => cases h
  | ok c => exact congrArg Except.ok (Except.ok.inj h)

theorem isQuiet_runConversion (host : Host) (setup : LogSetup) (a : Arguments) (s : Settings) :
    Action.IsQuiet setup.file (runConversion host setup a s) :=
  (Action.isQuiet_ofExcept _ _).bind fun _ =>
    (Action.isQuiet_noting _ _).bind fun _ =>
      (Action.isQuiet_files _).bind fun _ => Action.isQuiet_noting _ _

theorem exists_output_of_document {files : FileTree} {i : Importer}
    (h : (i.document host files).outcome = .ok d) :
    ∃ modules lineage output, (i.modules host files).outcome = .ok (modules, lineage) ∧
      (convert lineage modules).outcome = .ok output ∧ d = outputDatum output := by
  obtain ⟨⟨modules, lineage⟩, hmodules, hrest⟩ := Attempt.outcome_bind_eq_ok.mp h
  obtain ⟨output, hconvert, hd⟩ := Attempt.outcome_bind_eq_ok.mp hrest
  rw [Attempt.outcome_asRun] at hconvert
  exact ⟨modules, lineage, output, hmodules, eq_ok_of_mapError hconvert,
    (Except.ok.inj hd).symm⟩

/-- The tree is read after the first notes have been added to the log file. -/
theorem isDocument_of_runConversion
    (h : Journaled.after (runConversion host setup a s) w = (.ok d, v)) :
    ∃ now, w.files.SameBut (setup.file.bind w.files.place?).toList now ∧
      IsDocument host a s now d := by
  obtain ⟨options, hparser, h⟩ := Action.after_ofExcept_bind_eq_ok h
  obtain ⟨importer, u, himporter, h⟩ := Journaled.after_bind_eq_ok.mp h
  have hquiet := (Action.isQuiet_noting setup _).quiet himporter
  rw [Action.after_noting] at himporter
  obtain ⟨hcreate, -⟩ := Prod.mk.inj himporter
  obtain ⟨now, u', hnow, h⟩ := Journaled.after_bind_eq_ok.mp h
  obtain ⟨hfiles, rfl⟩ := Prod.mk.inj hnow
  obtain rfl := Except.ok.inj hfiles
  rw [Action.after_noting] at h
  obtain ⟨hd, -⟩ := Prod.mk.inj h
  obtain ⟨modules, lineage, output, hmodules, hconvert, rfl⟩ := exists_output_of_document hd
  exact ⟨u.files, hquiet.files,
    .of_output (eq_ok_of_mapError hparser) hcreate hmodules hconvert⟩

end Document

-- ════════════════════════════════════════════════════════════════════════
-- The output
-- ════════════════════════════════════════════════════════════════════════

/-- A text is laid out for a document: with the given indentation, and a line break at the end. -/
def IsTextOf (d indent : Datum) (text : String) : Prop :=
  ∃ layout body, layoutOf? indent = some layout ∧ Json.write? layout d = some body ∧
    text = body ++ "\n"

theorem outputText_eq_ok {d indent : Datum} {text : String} (h : outputText d indent = .ok text) :
    IsTextOf d indent text := by
  unfold outputText at h
  cases hlayout : layoutOf? indent with
  | none =>
    rw [hlayout] at h
    cases h
  | some layout =>
    rw [hlayout] at h
    dsimp only at h
    cases hbody : Json.write? layout d with
    | none =>
      rw [hbody] at h
      cases h
    | some body =>
      rw [hbody] at h
      exact ⟨layout, body, hlayout, hbody, (Except.ok.inj h).symm⟩

section Output

variable {setup : LogSetup} {d indent : Datum} {w v : World}

theorem after_write (name : String) (octets : List UInt8) :
    Journaled.after (Action.write name octets) w =
      match w.files.write name octets with
      | .error f => (.error (.file f name), w)
      | .ok files => (.ok (), { w with files }) := by
  have hwrite : Journaled.after (Action.write name octets) w =
      Journaled.after (match w.files.write name octets with
        | .error f => throw (.file f name)
        | .ok files => set { w with files } : Action Unit) w := rfl
  rw [hwrite]
  cases w.files.write name octets with
  | error f => rfl
  | ok files => rfl

/-- What can fail about the output fails before anything is written. -/
theorem writeOutput_after_error {name : Option String} {e : RunFault}
    (h : Journaled.after (writeOutput setup d name indent) w = (.error e, v)) : v = w := by
  rcases Journaled.after_bind_eq_error.mp h with htext | ⟨text, t, htext, h⟩
  · rw [Action.after_ofExcept] at htext
    exact (Prod.mk.inj htext).2.symm
  · rw [Action.after_ofExcept] at htext
    obtain ⟨-, rfl⟩ := Prod.mk.inj htext
    cases name with
    | none => cases h
    | some name =>
      rcases Journaled.after_bind_eq_error.mp h with hwrite | ⟨⟨⟩, u, -, hnote⟩
      · rw [after_write] at hwrite
        split at hwrite
        · exact (Prod.mk.inj hwrite).2.symm
        · cases hwrite
      · cases hnote

theorem writeOutput_after_print
    (h : Journaled.after (writeOutput setup d none indent) w = (.ok (), v)) :
    ∃ text, IsTextOf d indent text ∧ v = { w with printed := w.printed ++ text } := by
  obtain ⟨text, houtput, h⟩ := Action.after_ofExcept_bind_eq_ok h
  exact ⟨text, outputText_eq_ok houtput, (Prod.mk.inj h).2.symm⟩

/-- The file has the text as its contents, even after the note on that has been made. -/
theorem writeOutput_after_write {name : String}
    (hlog : ∀ place, w.files.place? name = some place →
      place ∉ (setup.file.bind w.files.place?).toList)
    (h : Journaled.after (writeOutput setup d (some name) indent) w = (.ok (), v)) :
    ∃ text, IsTextOf d indent text ∧ v.printed = w.printed ∧
      v.files.content? name = some (Utf8.encode text) ∧
      w.files.SameBut
        ((setup.file.bind w.files.place?).toList ++ (w.files.place? name).toList) v.files := by
  obtain ⟨text, houtput, h⟩ := Action.after_ofExcept_bind_eq_ok h
  obtain ⟨⟨⟩, u, hwrite, hnote⟩ := Journaled.after_bind_eq_ok.mp h
  have hquiet := (Action.isQuiet_noting setup _).quiet hnote
  rw [after_write] at hwrite
  split at hwrite
  · cases hwrite
  · next files hfiles =>
    obtain ⟨-, rfl⟩ := Prod.mk.inj hwrite
    obtain ⟨hsame, hcontent⟩ := FileTree.write_eq_ok hfiles
    have hnoted := hquiet.files
    rw [hsame.bind_place?_eq] at hnoted
    refine ⟨text, outputText_eq_ok houtput, hquiet.printed, ?_, ?_⟩
    · rw [hnoted.content?_eq, hcontent]
      intro place hplace
      rw [hsame.place?_eq] at hplace
      exact hlog place hplace
    · exact (hsame.mono (List.subset_append_right _ _)).trans
        (hnoted.mono (List.subset_append_left _ _))

end Output

-- ════════════════════════════════════════════════════════════════════════
-- Runs
-- ════════════════════════════════════════════════════════════════════════

/-- Nothing has been printed, the file for the document is as it was, and so is any other file but
that for the log. -/
structure Report.WroteNothing (a : Arguments) (s : Settings) (before : FileTree) (r : Report) :
    Prop where
  stdout : r.stdout = ""
  output : ∀ name, a.outputName? = some name → r.files.content? name = before.content? name
  others : before.SameBut (s.logPlace? before).toList r.files

/-- A text has been written: to the file for the document if one is named, and printed otherwise.
Nothing else has been printed, and no other file has changed but that for the log. -/
structure Report.Wrote (a : Arguments) (s : Settings) (before : FileTree) (r : Report)
    (text : String) : Prop where
  stdout : r.stdout = if a.outputName? = none then text else ""
  output : ∀ name, a.outputName? = some name → r.files.content? name = some (Utf8.encode text)
  others : before.SameBut ((s.logPlace? before).toList ++ (a.outputPlace? before).toList) r.files

/-- The log and the document do not go to one file. -/
def Arguments.KeepsApart (a : Arguments) (s : Settings) (files : FileTree) : Prop :=
  ∀ place, s.logPlace? files = some place → a.outputPlace? files ≠ some place

section Runs

variable {host : Host} {a : Arguments} {s : Settings} {files opened : FileTree} {setup : LogSetup}

/-- A report that differs in the log file only says that nothing has been written. -/
theorem wroteNothing_of_sameBut {r : Report} (hapart : a.KeepsApart s files)
    (hstdout : r.stdout = "") (hfiles : files.SameBut (s.logPlace? files).toList r.files) :
    r.WroteNothing a s files where
  stdout := hstdout
  output name hname := by
    refine hfiles.content?_eq fun place hplace hlog => ?_
    refine hapart place (Option.mem_toList.mp hlog) ?_
    rw [Arguments.outputPlace?, hname]
    exact hplace
  others := hfiles

theorem finish_of_error (a : Arguments) (setup : LogSetup)
    (x : Journaled (Except RunFault Unit × World)) {f : RunFault} {v : World}
    (hx : x.result = (.error f, v)) :
    (finish a setup x).ending ≠ .status 0 ∧ (finish a setup x).stdout = v.printed ∧
      v.files.SameBut (setup.file.bind v.files.place?).toList (finish a setup x).files := by
  unfold finish
  rw [hx]
  dsimp only
  cases f.failure? (treeName a) with
  | none => exact ⟨by simp, rfl, .refl _ _⟩
  | some detail => exact ⟨by simp, rfl, setup.sameBut_keep v.files _⟩

theorem finish_of_ok (a : Arguments) (setup : LogSetup)
    (x : Journaled (Except RunFault Unit × World)) {v : World} (hx : x.result = (.ok (), v)) :
    (finish a setup x).ending = .status 0 ∧ (finish a setup x).stdout = v.printed ∧
      (finish a setup x).files = v.files := by
  unfold finish
  rw [hx]
  exact ⟨rfl, rfl, rfl⟩

/-- Work that ends in a fault has been quiet. -/
theorem quiet_of_work_error {w v : World} {f : RunFault}
    (h : Journaled.after (work host setup a s) w = (.error f, v)) : World.Quiet setup.file w v := by
  rcases Journaled.after_bind_eq_error.mp h with hd | ⟨d, t, hd, hwrite⟩
  · exact (isQuiet_runConversion host setup a s).quiet hd
  · rw [writeOutput_after_error hwrite]
    exact (isQuiet_runConversion host setup a s).quiet hd

/-- Work that is done has written the text of the document once. -/
theorem exists_text_of_work {w v : World}
    (hapart : ∀ place, setup.file.bind w.files.place? = some place →
      a.outputPlace? w.files ≠ some place)
    (h : Journaled.after (work host setup a s) w = (.ok (), v)) :
    ∃ now d text, w.files.SameBut (setup.file.bind w.files.place?).toList now ∧
      IsDocument host a s now d ∧ IsTextOf d s.outputIndent text ∧
      v.printed = (if a.outputName? = none then w.printed ++ text else w.printed) ∧
      (∀ name, a.outputName? = some name → v.files.content? name = some (Utf8.encode text)) ∧
      w.files.SameBut
        ((setup.file.bind w.files.place?).toList ++ (a.outputPlace? w.files).toList) v.files := by
  obtain ⟨d, t, hd, hwrite⟩ := Journaled.after_bind_eq_ok.mp h
  obtain ⟨now, hnow, hdocument⟩ := isDocument_of_runConversion hd
  have hquiet := (isQuiet_runConversion host setup a s).quiet hd
  unfold Arguments.outputPlace? at hapart ⊢
  cases hname : a.outputName? with
  | none =>
    rw [hname] at hwrite
    obtain ⟨text, htext, rfl⟩ := writeOutput_after_print hwrite
    refine ⟨now, d, text, hnow, hdocument, htext, ?_, by simp, ?_⟩
    · rw [if_pos rfl, hquiet.printed]
    · exact hquiet.files.mono (List.subset_append_left _ _)
  | some name =>
    rw [hname] at hwrite hapart
    have hlog : ∀ place, t.files.place? name = some place →
        place ∉ (setup.file.bind t.files.place?).toList := by
      intro place hplace hmem
      rw [hquiet.logPlace_eq] at hmem
      rw [hquiet.files.place?_eq] at hplace
      exact hapart place (Option.mem_toList.mp hmem) hplace
    obtain ⟨text, htext, hprinted, hcontent, hsame⟩ := writeOutput_after_write hlog hwrite
    rw [hquiet.logPlace_eq, hquiet.files.place?_eq] at hsame
    refine ⟨now, d, text, hnow, hdocument, htext, ?_, ?_, ?_⟩
    · rw [if_neg (by simp), hprinted, hquiet.printed]
    · rintro _ ⟨⟩
      exact hcontent
    · exact (hquiet.files.mono (List.subset_append_left _ _)).trans hsame

/-- Nothing has been written unless the run has succeeded, and then the text of its document. The
tree has been read with the first notes in the log file, in case that is the file of the tree. -/
def Report.IsAtomic (host : Host) (a : Arguments) (s : Settings) (before : FileTree) (r : Report) :
    Prop :=
  (r.ending ≠ .status 0 → r.WroteNothing a s before) ∧
  (r.ending = .status 0 →
    ∃ now d text, before.SameBut (s.logPlace? before).toList now ∧ IsDocument host a s now d ∧
      IsTextOf d s.outputIndent text ∧ r.Wrote a s before text)

theorem isAtomic_of_wroteNothing {r : Report} (hending : r.ending ≠ .status 0)
    (h : r.WroteNothing a s files) : r.IsAtomic host a s files :=
  ⟨fun _ => h, fun hstatus => absurd hstatus hending⟩

theorem finish_isAtomic (hapart : a.KeepsApart s files)
    (hopened : files.SameBut (s.logPlace? files).toList opened)
    (hfile : setup.file.bind files.place? = s.logPlace? files) :
    (finish a setup ((work host setup a s).run.run { files := opened })).IsAtomic host a s
      files := by
  -- The names lead to the same places after the log file has been opened.
  have hlog : setup.file.bind opened.place? = s.logPlace? files :=
    (hopened.bind_place?_eq setup.file).trans hfile
  have hout : a.outputPlace? opened = a.outputPlace? files :=
    hopened.bind_place?_eq a.outputName?
  rcases hwork : Journaled.after (work host setup a s) { files := opened } with ⟨outcome, v⟩
  cases outcome with
  | error f =>
    obtain ⟨hending, hstdout, hfinal⟩ := finish_of_error a setup _ hwork
    have hquiet := quiet_of_work_error hwork
    have hworked := hquiet.files
    rw [hquiet.logPlace_eq, hlog] at hfinal
    rw [hlog] at hworked
    exact isAtomic_of_wroteNothing hending <|
      wroteNothing_of_sameBut hapart (hstdout.trans hquiet.printed)
        ((hopened.trans hworked).trans hfinal)
  | ok u =>
    obtain ⟨hending, hstdout, hfinal⟩ := finish_of_ok a setup _ hwork
    obtain ⟨now, d, text, hnow, hdocument, htext, hprinted, hcontent, hsame⟩ :=
      exists_text_of_work (by rw [hlog, hout]; exact hapart) hwork
    rw [hlog] at hnow
    rw [hlog, hout] at hsame
    refine ⟨fun h => absurd hending h, fun _ =>
      ⟨now, d, text, hopened.trans hnow, hdocument, htext, ?_, ?_, ?_⟩⟩
    · rw [hstdout, hprinted]
      simp
    · intro name hname
      rw [hfinal]
      exact hcontent name hname
    · rw [hfinal]
      exact (hopened.mono (List.subset_append_left _ _)).trans hsame

theorem runWith_isAtomic (hapart : a.KeepsApart s files) :
    (runWith host a s files).IsAtomic host a s files := by
  unfold runWith
  cases verbose a s with
  | error f =>
    exact isAtomic_of_wroteNothing (by simp) (wroteNothing_of_sameBut hapart rfl (.refl _ _))
  | ok verbose =>
    obtain ⟨hopened, hfile⟩ := LogSetup.sameBut_ofSettings s verbose files
    dsimp only
    rcases hsetup : LogSetup.ofSettings s verbose files with ⟨outcome, opened⟩
    rw [hsetup] at hopened hfile
    cases outcome with
    | error f =>
      exact isAtomic_of_wroteNothing (by simp) (wroteNothing_of_sameBut hapart rfl hopened)
    | ok setup => exact finish_isAtomic hapart hopened (hfile setup rfl)

/-- A run whose words are understood, and whose log and document go to different files, writes
nothing unless it ends with the status zero, and then it writes one text: that of the document of
its modules, laid out with the indentation of its settings and ended by a line break. A run whose
settings cannot be read changes nothing at all. -/
theorem run_isAtomic (host : Host) (files : FileTree) (words : List String) (a : Arguments)
    (hwords : Arguments.parse words = .ok a)
    (hapart : ∀ s, settingsOf host a files = .ok s → a.KeepsApart s files) :
    (∀ s, settingsOf host a files = .ok s → (run host files words).IsAtomic host a s files) ∧
    ∀ f, settingsOf host a files = .error f → (run host files words).ending ≠ .status 0 ∧
      (run host files words).stdout = "" ∧ (run host files words).files = files := by
  unfold run
  rw [hwords]
  dsimp only
  cases hsettings : settingsOf host a files with
  | error f =>
    refine ⟨nofun, ?_⟩
    rintro _ -
    exact ⟨by simp, rfl, rfl⟩
  | ok s =>
    refine ⟨?_, nofun⟩
    rintro _ ⟨⟩
    exact runWith_isAtomic (hapart s hsettings)

end Runs

namespace Kept

/-- Settings with a log file, and a file that a run may replace. -/
def files : FileTree where
  files :=
    [(["config.yaml"], Utf8.encode "logging: \x7bfile: run.log\x7d"),
     (["out.json"], Utf8.encode "[]")]

def arguments (importer : String) : Arguments where
  importer := importer
  output := some "out.json"

/-- The settings that the file gives. -/
theorem logPlace?_of_settings (importer : String) {s : Settings}
    (h : settingsOf .plain (arguments importer) files = .ok s) :
    s.logPlace? files = some ["run.log"] := by
  have hplaces : (settingsOf .plain (arguments "tree") files).toOption.map (·.logPlace? files) =
      some (some ["run.log"]) := by decide +kernel
  have hsame : settingsOf .plain (arguments "tree") files = .ok s := h
  rw [hsame] at hplaces
  exact Option.some.inj hplaces

theorem keepsApart (importer : String) (s : Settings)
    (h : settingsOf .plain (arguments importer) files = .ok s) :
    (arguments importer).KeepsApart s files := by
  have hlog := logPlace?_of_settings importer h
  have hout : (arguments importer).outputPlace? files = some ["out.json"] := by
    show (arguments "tree").outputPlace? files = some ["out.json"]
    decide +kernel
  intro place hplace hsame
  rw [hlog] at hplace
  rw [hout, ← hplace] at hsame
  revert hsame
  decide

/-- A run that lacks its tree keeps the file, and a run that needs none replaces it. -/
theorem run_isAtomic_without_tree :
    ((run .plain files ["--output", "out.json"]).ending = .status 1 ∧
      (run .plain files ["--output", "out.json"]).files.content? "out.json" =
        some (Utf8.encode "[]")) ∧
    (run .plain files ["--importer", "mock", "--output", "out.json"]).ending = .status 0 ∧
    (run .plain files ["--importer", "mock", "--output", "out.json"]).stdout = "" ∧
    ∃ s d text, settingsOf .plain (arguments "mock") files = .ok s ∧
      IsTextOf d s.outputIndent text ∧
      (run .plain files ["--importer", "mock", "--output", "out.json"]).files.content? "out.json" =
        some (Utf8.encode text) := by
  have htree : Arguments.parse ["--output", "out.json"] = .ok (arguments "tree") := by
    decide +kernel
  have hmock : Arguments.parse ["--importer", "mock", "--output", "out.json"] =
      .ok (arguments "mock") := by decide +kernel
  have hfailed : (run .plain files ["--output", "out.json"]).ending = .status 1 := by
    decide +kernel
  have hdone : (run .plain files ["--importer", "mock", "--output", "out.json"]).ending =
      .status 0 := by decide +kernel
  have hread : (settingsOf .plain (arguments "mock") files).toBool = true := by decide +kernel
  obtain ⟨s, hs⟩ := exists_ok_of_toBool hread
  refine ⟨⟨hfailed, ?_⟩, hdone, ?_⟩
  · obtain ⟨hatomic, -⟩ := run_isAtomic .plain files _ _ htree (keepsApart "tree")
    obtain ⟨hnothing, -⟩ := hatomic s hs
    have hkept := (hnothing (by rw [hfailed]; decide)).output "out.json" rfl
    rw [hkept]
    decide +kernel
  · obtain ⟨hatomic, -⟩ := run_isAtomic .plain files _ _ hmock (keepsApart "mock")
    obtain ⟨-, hwritten⟩ := hatomic s hs
    obtain ⟨now, d, text, -, -, htext, hwrote⟩ := hwritten hdone
    exact ⟨hwrote.stdout, s, d, text, hs, htext, hwrote.output "out.json" rfl⟩

end Kept

end BlockDoc
