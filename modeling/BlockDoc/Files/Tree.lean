import BlockDoc.Files.Path
import BlockDoc.Table
import BlockDoc.Text.Quoted

/-!
# File trees

The folders and files that a run of the program finds, and those that it leaves behind.

## Main definitions

* `FileTree` — folders and files
* `FileTree.isFile`, `FileTree.contains`, `FileTree.read` — what is found under a path
* `FileTree.write`, `FileTree.append` — a file with new contents
* `FileTree.changes` — the files that differ from those of another tree
-/

namespace BlockDoc

/-- The folders, and the files with their octets, under the names on the way to them. The folder
from which all ways start is always there. -/
structure FileTree where
  folders : List (List String) := []
  files : Table (List String) (List UInt8) := []

/-- Why a file cannot be used. -/
inductive FileFault
  | noEntry
  | notFolder
  | isFolder
  deriving DecidableEq, Repr

/-- The message for a file, given as in `shown`, that cannot be used. -/
def FileFault.message (f : FileFault) (shown : String) : String :=
  let reason := match f with
    | .noEntry => "[Errno 2] No such file or directory"
    | .notFolder => "[Errno 20] Not a directory"
    | .isFolder => "[Errno 21] Is a directory"
  reason ++ ": " ++ Text.quoted shown

namespace FileTree

/-- Whether there is a folder at a place. -/
def hasFolder (t : FileTree) (place : List String) : Bool :=
  place.isEmpty || t.folders.contains place

/-- Whether there is a file at a place. -/
def hasFile (t : FileTree) (place : List String) : Bool :=
  Table.has t.files place

/-- The place of a name in a folder. The name of the enclosing folder leads back, as far as the way
is known. -/
def descend (folder : List String) (name : String) : List String :=
  if name = Path.enclosing && folder.getLast?.any (· ≠ Path.enclosing) then folder.dropLast
  else folder ++ [name]

/-- The place to which names lead from a folder. All but the last must be names of folders. -/
def walk (t : FileTree) (folder : List String) : List String → Except FileFault (List String)
  | [] => .ok folder
  | [name] => .ok (descend folder name)
  | name :: rest =>
    let next := descend folder name
    if t.hasFolder next then walk t next rest
    else .error (if t.hasFile next then .notFolder else .noEntry)

/-- The place of a path. -/
def placeOf (t : FileTree) (p : Path) : Except FileFault (List String) :=
  t.walk [] p.parts

/-- Whether a path leads to a file. -/
def isFile (t : FileTree) (p : Path) : Bool :=
  match t.placeOf p with
  | .ok place => t.hasFile place
  | .error _ => false

/-- Whether a path leads to a file or folder. -/
def contains (t : FileTree) (p : Path) : Bool :=
  match t.placeOf p with
  | .ok place => t.hasFile place || t.hasFolder place
  | .error _ => false

/-- The octets of the file to which a path leads. -/
def read (t : FileTree) (p : Path) : Except FileFault (List UInt8) :=
  match t.placeOf p with
  | .error f => .error f
  | .ok place =>
    match Table.find? t.files place with
    | some octets => .ok octets
    | none => .error (if t.hasFolder place then .isFolder else .noEntry)

/-- The place at which the file of the given name can be written. A name that ends in a slash is not
the name of a file. -/
def placeToWrite (t : FileTree) (name : String) : Except FileFault (List String) :=
  match t.placeOf (.ofText name) with
  | .error f => .error f
  | .ok place =>
    if t.hasFolder place then .error .isFolder
    else if name.toList.getLast? = some '/' then
      .error (if t.hasFile place then .notFolder else .isFolder)
    else .ok place

/-- The tree in which the file of the given name has the given octets. -/
def write (t : FileTree) (name : String) (octets : List UInt8) : Except FileFault FileTree :=
  (t.placeToWrite name).map fun place => { t with files := Table.put t.files place octets }

/-- The tree in which octets have been added to the file of the given name. -/
def append (t : FileTree) (name : String) (octets : List UInt8) : Except FileFault FileTree :=
  (t.placeToWrite name).map fun place =>
    { t with files := Table.put t.files place ((Table.find? t.files place).getD [] ++ octets) }

/-- The folders on the way to a place. -/
def foldersTo (place : List String) : List (List String) :=
  ((List.range place.length).map fun n => place.take n).filter fun folder => !folder.isEmpty

/-- The tree with a folder, and the folders on the way to it. -/
def addFolder (t : FileTree) (place : List String) : FileTree :=
  { t with folders := (t.folders ++ foldersTo place ++ [place]).eraseDups }

/-- The tree with a file, and the folders on the way to it. -/
def addFile (t : FileTree) (place : List String) (octets : List UInt8) : FileTree :=
  { folders := (t.folders ++ foldersTo place).eraseDups, files := Table.put t.files place octets }

/-- The files that a tree has and another one has not, or not with the same octets. -/
def changes (before after : FileTree) : Table (List String) (List UInt8) :=
  after.files.filter fun e => Table.find? before.files e.1 ≠ some e.2

end FileTree

end BlockDoc
