import BlockDoc.Proofs.Tree.Numerals
import BlockDoc.Proofs.Validation.Breakdown
import BlockDoc.Tree.Importer
import BlockDoc.Yaml.Host

/-!
# Faults of a load that are no refusals

A load that fails refuses the tree, with a few exceptions: the text of the file cannot be decoded,
an integer or another scalar in it cannot be read, the host gives up on the text or on its data, or
a value that is to be gone through has neither items nor members. Each exception has its cause in
the file.

## Main definitions

* `LoadFault.Cause` — what brings about a fault that is no refusal
* `Host.Understands` — no value in a file is foreign to a host

## Main results

* `TreeImporter.get_eq_ok_or_refused_or_cause` — a load gives modules, or refuses the tree, or has a
  fault with its cause
* `TreeImporter.Uncaught.not_forall_get_ok_or_refused` — trees whose loads end in such faults
-/

namespace BlockDoc

/-- What brings about a fault that is no refusal, for the file at a path. -/
inductive LoadFault.Cause (host : Host) (files : FileTree) (path : Path) : LoadFault → Prop
  /-- The octets of the file are not the encoding of a text. -/
  | undecodable {octets : List UInt8} {f : Utf8.Fault} (hread : files.read path = .ok octets)
    (hdecode : Utf8.decode octets = .error f) :
    Cause host files path (.undecodable (if isYaml path then f.fromTail else f))
  /-- In a JSON text stand more digits in a row than are read. -/
  | oversizedInteger {octets : List UInt8} {cs : List Char} {digits : Nat}
    (hyaml : isYaml path = false) (hread : files.read path = .ok octets)
    (hdecode : decodeText octets = .ok cs) (hdigits : Text.HasDigits cs digits)
    (hlimit : 4300 < digits) : Cause host files path (.oversizedInteger digits)
  /-- A scalar in a YAML text has the form of a number or of a date, and has no value. -/
  | noValue {octets : List UInt8} {cs : List Char} {message : String} (hyaml : isYaml path = true)
    (hread : files.read path = .ok octets) (hdecode : decodeText octets = .ok cs)
    (hvalue : host.readYaml cs = .error (.noValue message)) :
    Cause host files path (.unread (.noValue message))
  /-- The host breaks off reading a YAML text. -/
  | brokenOff {octets : List UInt8} {cs : List Char} (hyaml : isYaml path = true)
    (hread : files.read path = .ok octets) (hdecode : decodeText octets = .ok cs)
    (hvalue : host.readYaml cs = .error .brokenOff) : Cause host files path (.unread .brokenOff)
  /-- The text is nested too deeply for the host. -/
  | tooDeep {octets : List UInt8} {cs : List Char} (hread : files.read path = .ok octets)
    (hdecode : decodeText octets = .ok cs) (hdeep : host.reaches cs = false) :
    Cause host files path .tooDeep
  /-- The diagnostics are a truth value or a number, and count as present. -/
  | diagnostics {entries : List (Datum × Datum)} {d : Datum}
    (hread : readTree host files path = .ok entries)
    (hmember : Datum.member? entries "diagnostics" = some d)
    (hd : d = .bool true ∨ (∃ n, n ≠ 0 ∧ d = .int n) ∨ ∃ x, x.isZero = false ∧ d = .float x) :
    Cause host files path (.broken .noItems)
  /-- Somewhere in the modules there is a sequence without items, or a record without members. -/
  | payload {entries : List (Datum × Datum)} {items : List Datum} {b : Breakdown}
    (hread : readTree host files path = .ok entries)
    (hmember : Datum.member? entries "modules" = some (.list items))
    (hhollow : (Datum.list items).HollowWithin b) : Cause host files path (.broken b)

/-- A file that is read as YAML has no value that is foreign to the host. -/
def Host.Understands (host : Host) (files : FileTree) (path : Path) : Prop :=
  ∀ octets cs, isYaml path = true → files.read path = .ok octets → decodeText octets = .ok cs →
    host.readYaml cs ≠ .error .foreign

/-- A fault refuses the tree, or has its cause in the file. -/
def LoadFault.IsAccounted (host : Host) (files : FileTree) (path : Path) (f : LoadFault) : Prop :=
  (∃ r, f = .refused r) ∨ f.Cause host files path

theorem LoadFault.isAccounted_refused (host : Host) (files : FileTree) (path : Path) (r : Refusal) :
    (LoadFault.refused r).IsAccounted host files path :=
  .inl ⟨r, rfl⟩

-- ════════════════════════════════════════════════════════════════════════
-- The file
-- ════════════════════════════════════════════════════════════════════════

section File

variable {host : Host} {files : FileTree} {path : Path} {octets : List UInt8} {cs : List Char}

open LoadFault

theorem decode_eq_error_of_decodeText {f : Utf8.Fault} (h : decodeText octets = .error f) :
    Utf8.decode octets = .error f := by
  unfold decodeText at h
  cases hdecode : Utf8.decode octets with
  | ok cs =>
    rw [hdecode] at h
    cases h
  | error g =>
    rw [hdecode] at h
    cases h
    rfl

theorem isAccounted_undecodable {f : Utf8.Fault} (hread : files.read path = .ok octets)
    (h : decodeText octets = .error f) :
    (LoadFault.undecodable (if isYaml path then f.fromTail else f)).IsAccounted host files path :=
  .inr (.undecodable hread (decode_eq_error_of_decodeText h))

theorem failsOnlyWith_readJson (hyaml : isYaml path = false)
    (hread : files.read path = .ok octets) (hdecode : decodeText octets = .ok cs) :
    FailsOnlyWith (IsAccounted host files path) (readJson cs) := by
  unfold readJson
  split
  · exact .ok _
  · exact .error (isAccounted_refused ..)
  · next digits hdigits =>
    obtain ⟨hlimit, hrow⟩ := Json.failsOnlyWith_read cs _ hdigits
    exact .error (.inr (.oversizedInteger hyaml hread hdecode hrow hlimit))

theorem failsOnlyWith_readYaml (h : host.Understands files path) (hyaml : isYaml path = true)
    (hread : files.read path = .ok octets) (hdecode : decodeText octets = .ok cs) :
    FailsOnlyWith (IsAccounted host files path) (readYaml host cs) := by
  unfold readYaml
  split
  · exact .ok _
  · exact .error (isAccounted_refused ..)
  · next f hmalformed hf =>
    refine .error (.inr ?_)
    cases f with
    | malformed => exact absurd rfl hmalformed
    | noValue message => exact .noValue hyaml hread hdecode hf
    | brokenOff => exact .brokenOff hyaml hread hdecode hf
    | foreign => exact absurd hf (h octets cs hyaml hread hdecode)

theorem failsOnlyWith_readText (h : host.Understands files path)
    (hread : files.read path = .ok octets) (hdecode : decodeText octets = .ok cs) :
    FailsOnlyWith (IsAccounted host files path) (readText host path cs) := by
  unfold readText
  split
  · next hdeep => exact .error (.inr (.tooDeep hread hdecode (by simpa using hdeep)))
  · split
    · next hyaml => exact failsOnlyWith_readYaml h hyaml hread hdecode
    · next hyaml => exact failsOnlyWith_readJson (by simpa using hyaml) hread hdecode

theorem failsOnlyWith_readData (h : host.Understands files path) :
    FailsOnlyWith (IsAccounted host files path) (readData host files path) := by
  unfold readData
  split
  · exact .error (isAccounted_refused ..)
  · split
    · exact .error (isAccounted_refused ..)
    · next octets hread =>
      split
      · next f hdecode => exact .error (isAccounted_undecodable hread hdecode)
      · next cs hdecode => exact failsOnlyWith_readText h hread hdecode

theorem failsOnlyWith_readTree (h : host.Understands files path) :
    FailsOnlyWith (IsAccounted host files path) (readTree host files path) := by
  unfold readTree
  split
  · next f hf => exact .error (failsOnlyWith_readData h f hf)
  · exact .ok _
  · exact .error (isAccounted_refused ..)

end File

-- ════════════════════════════════════════════════════════════════════════
-- The tree
-- ════════════════════════════════════════════════════════════════════════

section Tree

variable {host : Host} {files : FileTree} {path : Path} {entries : List (Datum × Datum)}

open LoadFault

/-- Data that count as present and have no items are truth values and numbers. -/
theorem cases_of_itemsOf_eq_error {d : Datum} {b : Breakdown} (h : itemsOf d = .error b) :
    b = .noItems ∧
      (d = .bool true ∨ (∃ n, n ≠ 0 ∧ d = .int n) ∨ ∃ x, x.isZero = false ∧ d = .float x) := by
  unfold itemsOf at h
  split at h
  · cases h
  · next htruthy =>
    cases d with
    | bool c =>
      cases h
      exact ⟨rfl, .inl (by simpa [Datum.truthy] using htruthy)⟩
    | int n =>
      cases h
      exact ⟨rfl, .inr (.inl ⟨n, by simpa [Datum.truthy] using htruthy, rfl⟩)⟩
    | float x =>
      cases h
      exact ⟨rfl, .inr (.inr ⟨x, by simpa [Datum.truthy] using htruthy, rfl⟩)⟩
    | null => exact absurd rfl htruthy
    | _ => cases h

theorem failsOnlyWith_checkDiagnosticItems (items : List Datum) :
    FailsOnlyWith (IsAccounted host files path) (checkDiagnosticItems items) := by
  induction items with
  | nil => exact .ok _
  | cons d rest ih =>
    unfold checkDiagnosticItems
    split
    · exact ih.map _
    · exact .error (isAccounted_refused ..)
    · next b hb => exact (Diagnostic.breaksOnlyAt_check (P := fun _ => False) d b hb).elim

theorem failsOnlyWith_checkDiagnostics (hread : readTree host files path = .ok entries) :
    FailsOnlyWith (IsAccounted host files path) (checkDiagnostics entries) := by
  unfold checkDiagnostics
  split
  · exact failsOnlyWith_checkDiagnosticItems _
  · next b hb =>
    obtain ⟨rfl, hd⟩ := cases_of_itemsOf_eq_error hb
    cases hmember : Datum.member? entries "diagnostics" with
    | none => simp [hmember] at hd
    | some d =>
      rw [hmember] at hd
      exact .error (.inr (.diagnostics hread hmember hd))

/-- A fault refuses the tree, or is a breakdown with a property. -/
def LoadFault.IsRefusalOr (P : Breakdown → Prop) (f : LoadFault) : Prop :=
  (∃ r, f = .refused r) ∨ ∃ b, P b ∧ f = .broken b

theorem LoadFault.IsRefusalOr.mono {P Q : Breakdown → Prop} {f : LoadFault} (h : f.IsRefusalOr P)
    (hPQ : ∀ b, P b → Q b) : f.IsRefusalOr Q := by
  rcases h with hr | ⟨b, hb, hf⟩
  · exact .inl hr
  · exact .inr ⟨b, hPQ b hb, hf⟩

theorem failsOnlyWith_treePart {α : Type} {P : Breakdown → Prop} {x : Checked α}
    (h : x.BreaksOnlyAt P) : FailsOnlyWith (IsRefusalOr P) (treePart x) := by
  cases x with
  | valid a => exact .ok a
  | invalid fs => exact .error (.inl ⟨_, rfl⟩)
  | broken b => exact .error (.inr ⟨b, h b rfl, rfl⟩)

theorem failsOnlyWith_checkParent {P : Breakdown → Prop} :
    FailsOnlyWith (IsRefusalOr P) (checkParent entries) := by
  unfold checkParent
  split
  · exact .ok _
  · next d _ => exact (failsOnlyWith_treePart (ParentRef.breaksOnlyAt_check d)).map _

theorem breaksOnlyAt_check_blocks (d : Datum) :
    (Module.check (.object [("blocks", d)])).BreaksOnlyAt d.HollowWithin :=
  (Rule.breaksOnlyAt_list_hollow Block.breaksOnlyAt_check d).under (.field "blocks")

theorem failsOnlyWith_checkBlocks (entries : List (Datum × Datum)) :
    FailsOnlyWith (IsRefusalOr (Datum.map entries).HollowWithin) (checkBlocks entries) := by
  unfold checkBlocks
  refine failsOnlyWith_treePart ((breaksOnlyAt_check_blocks _).mono fun b hb => ?_)
  split at hb
  · cases hmember : Datum.member? entries "blocks" with
    | none => simp [hmember, Datum.truthy] at *
    | some d =>
      obtain ⟨k, -, hmem⟩ := Table.exists_mem_of_find? hmember
      rw [hmember] at hb
      exact Datum.HollowWithin.member hmem hb
  · obtain ⟨p, hp, hhollow⟩ := hb
    cases hp with
    | refl => cases hhollow
    | item hd _ => cases hd

theorem failsOnlyWith_checkModuleItems (items : List Datum) (position : Nat) :
    FailsOnlyWith (IsRefusalOr fun b => ∃ d ∈ items, d.HollowWithin b)
      (checkModuleItems position items) := by
  induction items generalizing position with
  | nil => exact .ok _
  | cons item rest ih =>
    have hrest := (ih (position + 1)).mono fun f hf => hf.mono
      (Q := fun b => ∃ d ∈ item :: rest, d.HollowWithin b) fun b ⟨d, hd, hb⟩ =>
        ⟨d, List.mem_cons_of_mem item hd, hb⟩
    cases item with
    | map entries =>
      have hblocks := (failsOnlyWith_checkBlocks entries).mono fun f hf => hf.mono
        (Q := fun b => ∃ d ∈ .map entries :: rest, d.HollowWithin b) fun b hb =>
          ⟨.map entries, List.mem_cons_self .., hb⟩
      exact failsOnlyWith_checkParent.bind fun _ _ => hblocks.bind fun _ _ =>
        hrest.bind fun _ _ => .ok _
    | _ => exact .error (.inl ⟨_, rfl⟩)

theorem failsOnlyWith_checkModules (hread : readTree host files path = .ok entries) :
    FailsOnlyWith (IsAccounted host files path) (checkModules entries) := by
  unfold checkModules
  split
  · next items hmember =>
    refine (failsOnlyWith_checkModuleItems items 0).mono fun f hf => ?_
    rcases hf with hr | ⟨b, ⟨d, hd, hb⟩, rfl⟩
    · exact .inl hr
    · exact .inr (.payload hread hmember (hb.item hd))
  · exact .error (isAccounted_refused ..)

end Tree

-- ════════════════════════════════════════════════════════════════════════
-- The load
-- ════════════════════════════════════════════════════════════════════════

namespace TreeImporter

open LoadFault

section Load

variable {host : Host} {files : FileTree} {entries : List (Datum × Datum)}

theorem failsOnlyWith_link (t : TreeImporter) (list : ModuleList) :
    FailsOnlyWith (IsAccounted host files t.path) (t.link list).result.1 := by
  unfold link
  dsimp only
  split
  · exact .error (isAccounted_refused ..)
  · exact .ok _

theorem failsOnlyWith_loadModules (t : TreeImporter)
    (hread : readTree host files t.path = .ok entries) :
    FailsOnlyWith (IsAccounted host files t.path) (t.loadModules entries).result.1 := by
  unfold loadModules
  split
  · next f hf => exact .error (failsOnlyWith_checkModules hread f hf)
  · split
    · exact .error (isAccounted_refused ..)
    · exact failsOnlyWith_link t _

theorem failsOnlyWith_loadEntries (t : TreeImporter)
    (hread : readTree host files t.path = .ok entries) :
    FailsOnlyWith (IsAccounted host files t.path) (t.loadEntries entries).result.1 := by
  unfold loadEntries
  split
  · next f hf => exact .error (failsOnlyWith_checkDiagnostics hread f hf)
  · next ds _ =>
    rw [Journaled.bind_result]
    split
    · exact .error (isAccounted_refused ..)
    · exact failsOnlyWith_loadModules t hread

theorem failsOnlyWith_get (t : TreeImporter) (h : host.Understands files t.path) :
    FailsOnlyWith (IsAccounted host files t.path) (t.get host files).result.1 := by
  unfold get
  split
  · exact .ok _
  · unfold load
    split
    · next f hf => exact .error (failsOnlyWith_readTree h f hf)
    · next entries hread => exact failsOnlyWith_loadEntries t hread

end Load

/-- An importer gives its modules, or refuses the tree, or has a fault with its cause in the file:
octets that are no text, an integer or another scalar that cannot be read, a text or data that the
host gives up on, diagnostics without items, or a payload without items or members. -/
theorem get_eq_ok_or_refused_or_cause (host : Host) (t : TreeImporter) (files : FileTree)
    (h : host.Understands files t.path) :
    (∃ modules, (t.get host files).result.1 = .ok modules) ∨
    (∃ r, (t.get host files).result.1 = .error (.refused r)) ∨
    ∃ f, (t.get host files).result.1 = .error f ∧ f.Cause host files t.path := by
  cases hget : (t.get host files).result.1 with
  | ok modules => exact .inl ⟨modules, rfl⟩
  | error f =>
    rcases failsOnlyWith_get t h f hget with ⟨r, rfl⟩ | hcause
    · exact .inr (.inl ⟨r, rfl⟩)
    · exact .inr (.inr ⟨f, rfl, hcause⟩)

namespace Uncaught

/-- A tree in JSON with one block, an attribute of which has the given tag and payload, in parts. -/
def treeText (tag payload : String) : List String :=
  ["\x7b\"modules\": [\x7b\"blocks\": [\x7b\"type\": \"locals\", ",
    "\"range\": \x7b\"filename\": \"main.tf\", \"start_line\": 1, \"end_line\": 1\x7d, ",
    "\"attributes\": [\x7b\"name\": \"a\", \"value\": \x7b\"type\": \"", tag,
    "\", \"value\": ", payload, "\x7d\x7d]\x7d]\x7d]\x7d"]

/-- The octets of texts of ASCII characters that follow one another. -/
def octetsOf (texts : List String) : List UInt8 :=
  texts.flatMap fun text => text.toList.map fun c => UInt8.ofNat c.toNat

/-- An octet that begins no character, diagnostics that are a number, a list that is a number, and
an object that is a list. -/
def contents : List (List UInt8) :=
  [[0xff], octetsOf ["\x7b\"diagnostics\": 5\x7d"], octetsOf (treeText "list" "5"),
   octetsOf (treeText "object" "[]")]

/-- A file with the given octets. -/
def fileOf (octets : List UInt8) : FileTree where
  files := [(["tree.json"], octets)]

/-- The fault of a load of the file of a name on the plain host. -/
def fault? (name : String) (files : FileTree) : Option LoadFault :=
  match ((start name {}).result.get .plain files).result.1 with
  | .ok _ => none
  | .error f => some f

theorem exists_error_of_fault? {name : String} {files : FileTree} {f : LoadFault}
    (h : fault? name files = some f) :
    ((start name {}).result.get .plain files).result.1 = .error f := by
  unfold fault? at h
  cases hget : ((start name {}).result.get .plain files).result.1 with
  | ok modules =>
    rw [hget] at h
    cases h
  | error g =>
    rw [hget] at h
    rw [Option.some.inj h]

/-- A file in YAML, with diagnostics that are a number. -/
def numbered : FileTree where
  files := [(["tree.yaml"], octetsOf ["diagnostics: 5"])]

theorem understands_numbered : Host.plain.Understands numbered (Path.ofText "tree.yaml") := by
  intro octets cs _ hread hdecode hforeign
  have hoctets : numbered.read (Path.ofText "tree.yaml") = .ok (octetsOf ["diagnostics: 5"]) := by
    decide +kernel
  obtain rfl := Except.ok.inj (hread.symm.trans hoctets)
  have hcs : decodeText (octetsOf ["diagnostics: 5"]) = .ok "diagnostics: 5".toList := by
    decide +kernel
  obtain rfl := Except.ok.inj (hdecode.symm.trans hcs)
  have hok : (Host.plain.readYaml "diagnostics: 5".toList).toBool = true := by decide +kernel
  rw [hforeign] at hok
  cases hok

/-- Diagnostics that are a number are neither accepted nor refused, and the fault has its cause in
the file. -/
theorem get_cause_of_numbered :
    Host.plain.Understands numbered (Path.ofText "tree.yaml") ∧
      ∃ f, ((start "tree.yaml" {}).result.get .plain numbered).result.1 = .error f ∧
        f = .broken .noItems ∧ f.Cause .plain numbered (Path.ofText "tree.yaml") := by
  refine ⟨understands_numbered, ?_⟩
  have hcause := get_eq_ok_or_refused_or_cause .plain (start "tree.yaml" {}).result numbered
    understands_numbered
  have hfault : fault? "tree.yaml" numbered = some (.broken .noItems) := by decide +kernel
  have hget := exists_error_of_fault? hfault
  rw [hget] at hcause ⊢
  rcases hcause with ⟨modules, hok⟩ | ⟨r, hr⟩ | ⟨f, hf, hcause⟩
  · cases hok
  · cases hr
  · obtain rfl := Except.error.inj hf
    exact ⟨_, rfl, rfl, hcause⟩

/-- A file that holds an octet with which no character begins ends a load on every host with a fault
that is no refusal. -/
theorem get_of_undecodable (host : Host) :
    ((start "tree.json" {}).result.get host (fileOf [0xff])).result.1 =
      .error (.undecodable ⟨0, [0xff], .invalidStart⟩) := by
  have hfile : (fileOf [0xff]).isFile (Path.ofText "tree.json") = true := by decide +kernel
  have hread : (fileOf [0xff]).read (Path.ofText "tree.json") = .ok [0xff] := by decide +kernel
  have hyaml : isYaml (Path.ofText "tree.json") = false := by decide +kernel
  have hdecode : decodeText [0xff] = .error ⟨0, [0xff], .invalidStart⟩ := by decide +kernel
  have hdata : readTree host (fileOf [0xff]) (Path.ofText "tree.json") =
      .error (.undecodable ⟨0, [0xff], .invalidStart⟩) := by
    simp [readTree, readData, hfile, hread, hyaml, hdecode]
  show ((start "tree.json" {}).result.load host (fileOf [0xff])).result.1 = _
  have hpath : (start "tree.json" {}).result.path = Path.ofText "tree.json" := rfl
  unfold load
  rw [hpath, hdata]
  rfl

/-- Each of these files ends a load with a fault that is no refusal, and the first one does so on
every host, so that not every load gives modules or refuses the tree. -/
theorem not_forall_get_ok_or_refused :
    contents.map (fun octets => fault? "tree.json" (fileOf octets)) =
      [some (.undecodable ⟨0, [0xff], .invalidStart⟩), some (.broken .noItems),
        some (.broken .noItems), some (.broken .noMembers)] ∧
    ∀ host : Host, ¬∀ (t : TreeImporter) (files : FileTree),
      (∃ modules, (t.get host files).result.1 = .ok modules) ∨
      ∃ r, (t.get host files).result.1 = .error (.refused r) := by
  refine ⟨by decide +kernel, fun host h => ?_⟩
  have hget := get_of_undecodable host
  rcases h (start "tree.json" {}).result (fileOf [0xff]) with ⟨modules, hok⟩ | ⟨r, hr⟩
  · rw [hget] at hok
    cases hok
  · rw [hget] at hr
    cases hr

end Uncaught

end TreeImporter

end BlockDoc
