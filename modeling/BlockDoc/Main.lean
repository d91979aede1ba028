import BlockDoc.CommandLine.Run
import BlockDoc.Yaml.Host

/-!
# The program

The files that a run can use are read into a file tree, the run is done on that tree and on the
plain host, and what it has changed is written back.
-/

namespace BlockDoc

/-- The tree with what is found under a name: a file, a folder, or nothing. -/
def gather (t : FileTree) (name : String) : IO FileTree := do
  let place := (Path.ofText name).parts
  try
    let octets ← IO.FS.readBinFile name
    return t.addFile place octets.toList
  catch e =>
    match e with
    | .inappropriateType _ 21 _ => return t.addFolder place
    | _ => return t

/-- The names of the folders on the way to a file, and of the file itself. -/
def stages (name : String) : List String :=
  let parts := (Path.ofText name).parts
  ((List.range parts.length).map fun n => (Path.mk (parts.take (n + 1))).text)

/-- The tree with what is found on the way to the files of the given names. -/
def gatherAll (t : FileTree) (names : List String) : IO FileTree :=
  (names.flatMap stages).foldlM gather t

/-- The names of the files that arguments call for. -/
def Arguments.fileNames (a : Arguments) : List String :=
  a.config.getD settingsName :: (a.tree.toList ++ a.output.toList)

/-- The files that a run with the given words can use. -/
def filesFor (words : List String) : IO FileTree :=
  match Arguments.parse words with
  | .error _ => return {}
  | .ok a => do
    let t ← gatherAll {} a.fileNames
    match settingsOf .plain a t with
    | .error _ => return t
    | .ok s =>
      match LogSetup.fileOf s.logFile with
      | .ok (some name) => gatherAll t [name]
      | _ => return t

/-- The number that a run hands back, and the line that explains an ending out of the ordinary. -/
def Ending.summary : Ending → UInt32 × Option String
  | .status code => (code.toUInt32, none)
  | .stopped (.usage message) => (2, some ("tfdoc: error: " ++ message))
  | .stopped _ => (0, none)
  | .badSettings _ => (1, some "unreadable settings")
  | .badLog f => (1, some f.message)
  | .badOptions _ => (1, some "invalid parser options")
  | .fault _ => (1, some "unexpected data")

/-- A run of the program on the files of the system. -/
def runOnSystem (words : List String) : IO UInt32 := do
  let before ← filesFor words
  let report := run .plain before words
  for e in FileTree.changes before report.files do
    IO.FS.writeBinFile (Path.mk e.1).text ⟨e.2.toArray⟩
  IO.print report.stdout
  for r in report.notes do
    IO.eprintln (r.level.name ++ " " ++ r.text)
  let (code, line) := report.ending.summary
  match line with
  | some text => IO.eprintln text
  | none => pure ()
  return code

end BlockDoc

/-- The program. -/
def main (words : List String) : IO UInt32 :=
  BlockDoc.runOnSystem words
