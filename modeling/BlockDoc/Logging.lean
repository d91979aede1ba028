import BlockDoc.Datum.Literal
import BlockDoc.Files.Tree
import BlockDoc.Journal
import BlockDoc.Settings
import BlockDoc.Text.Digit
import BlockDoc.Text.Printable

/-!
# Log records in files

Log records from a least level up are written to a file in a format that the settings give. In a
format, a field such as `%(message)s` stands for a part of the record.

## Main definitions

* `LogSetup` — the least level, the format and the file
* `LogSetup.ofSettings` — the setup that settings give
* `LogSetup.admits` — whether a record is of the least level
* `LogSetup.line?` — a record as a line of the file
-/

namespace BlockDoc

/-! ## Formats -/

/-- A field of a format: the name, and how its value is laid out. -/
structure FormatField where
  name : String
  leftAligned : Bool
  zeroFilled : Bool
  width : Nat
  precision : Option Nat
  conversion : Char

/-- A piece of a format. -/
inductive FormatPiece
  | text (c : Char)
  | field (f : FormatField)

namespace FormatField

/-- Whether a character may stand in the name of a field of a usable format. -/
def isNameChar (c : Char) : Bool :=
  c.isAlphanum || c = '_' || (0x80 ≤ c.toNat && Text.isPrintable c)

/-- Whether a character is a flag. -/
def isFlag (c : Char) : Bool :=
  "#0+ -".toList.contains c

/-- The letters for how a value is laid out. -/
def conversions : List Char := "diouxefgcrsa%".toList

/-- The leading digits as a number, and what follows them. -/
def takeNumber (cs : List Char) : Option Nat × List Char :=
  let digits := cs.takeWhile fun c => (Text.digitValue? c).isSome
  let rest := cs.dropWhile fun c => (Text.digitValue? c).isSome
  if digits.isEmpty then (none, cs)
  else (some (Text.ofDigits 10 (digits.filterMap Text.digitValue?)), rest)

/-- What follows a width or a precision: a number, or a star. -/
def dropSize (cs : List Char) : List Char :=
  match cs with
  | '*' :: rest => rest
  | _ => (takeNumber cs).2

/-- Whether a text starts with what may follow the name of a field. -/
def startsLayout (cs : List Char) : Bool :=
  let sized := dropSize (cs.dropWhile isFlag)
  let rest := match sized with
    | '.' :: more => if (dropSize more).length < more.length then dropSize more else sized
    | _ => sized
  match rest with
  | c :: _ => conversions.contains c.toLower
  | [] => false

/-- Whether a text starts with a field. -/
def startsField (cs : List Char) : Bool :=
  match cs with
  | '%' :: '(' :: rest =>
    match rest.takeWhile isNameChar, rest.dropWhile isNameChar with
    | _ :: _, ')' :: layout => startsLayout layout
    | _, _ => false
  | _ => false

end FormatField

/-- Whether a format is usable: there is a field somewhere in it. -/
def hasField : List Char → Bool
  | [] => false
  | c :: cs => FormatField.startsField (c :: cs) || hasField cs

namespace FormatPiece

/-- The layout after the name of a field, and what follows it. -/
def layout? (name : String) (cs : List Char) : Option (FormatPiece × List Char) :=
  let flags := cs.takeWhile FormatField.isFlag
  let (width, cs) := FormatField.takeNumber (cs.dropWhile FormatField.isFlag)
  let (precision, cs) := match cs with
    | '.' :: rest =>
      (some ((FormatField.takeNumber rest).1.getD 0), (FormatField.takeNumber rest).2)
    | _ => (none, cs)
  match cs with
  | [] => none
  | c :: rest =>
    some (.field ⟨name, flags.contains '-', flags.contains '0', width.getD 0, precision, c⟩, rest)

/-- The piece at the start of a format, and what follows it. -/
def next? : List Char → Option (FormatPiece × List Char)
  | [] => none
  | '%' :: '(' :: rest =>
    match rest.dropWhile (· ≠ ')') with
    | [] => none
    | _ :: layout => layout? (String.ofList (rest.takeWhile (· ≠ ')'))) layout
  | '%' :: '%' :: rest => some (.text '%', rest)
  | '%' :: _ => none
  | c :: rest => some (.text c, rest)

/-- The pieces of a format, at most `bound` of them. -/
def piecesWithin : Nat → List Char → Option (List FormatPiece)
  | _, [] => some []
  | 0, _ => none
  | bound + 1, cs =>
    match next? cs with
    | none => none
    | some (p, rest) => (piecesWithin bound rest).map (p :: ·)

/-- The pieces of a format. -/
def pieces? (format : String) : Option (List FormatPiece) :=
  piecesWithin format.length format.toList

end FormatPiece

/-- A text filled up to a width. -/
def filled (leftAligned : Bool) (fill : Char) (width : Nat) (s : String) : String :=
  let padding := String.ofList (List.replicate (width - s.length) fill)
  if leftAligned then s ++ padding else padding ++ s

/-- The value of a field of a log record. -/
def LogRecord.field? (r : LogRecord) (name : String) : Option Datum :=
  Table.find?
    [("message", Datum.str r.text), ("levelname", .str r.level.name), ("name", .str r.source),
     ("levelno", .int r.level.severity)] name

/-- The value of a field laid out as text. -/
def FormatField.render? (f : FormatField) (r : LogRecord) : Option String :=
  let cut (s : String) : String := match f.precision with
    | none => s
    | some n => String.ofList (s.toList.take n)
  if f.conversion = '%' then some "%"
  else do
    let d ← r.field? f.name
    match f.conversion, d with
    | 's', d => return filled f.leftAligned ' ' f.width (cut d.display)
    | 'r', d => return filled f.leftAligned ' ' f.width (cut d.literal)
    | 'd', .int n =>
      let fill := if f.zeroFilled && !f.leftAligned then '0' else ' '
      return filled f.leftAligned fill f.width (Text.intText n)
    | _, _ => none

/-- A piece of a format for a log record. -/
def FormatPiece.render? (r : LogRecord) : FormatPiece → Option String
  | .text c => some (String.singleton c)
  | .field f => f.render? r

/-! ## Setup -/

/-- The least level of log records, and the format and the file in which they are kept. -/
structure LogSetup where
  level : Nat
  format : String
  file : Option String
  deriving DecidableEq, Repr

/-- Why log records cannot be set up. -/
inductive LogSetupFault
  /-- A file name or a format that is no text. -/
  | notText
  | file (f : FileFault) (name : String)
  | invalidFormat (format : String)
  | unknownLevel (name : String)
  deriving DecidableEq, Repr

/-- The message for log records that cannot be set up, if there is one. -/
def LogSetupFault.message : LogSetupFault → String
  | .notText => ""
  | .file f name => f.message name
  | .invalidFormat format => "Invalid format '" ++ format ++ "' for '%' style"
  | .unknownLevel name => "Unknown level: " ++ Text.quoted name

namespace LogSetup

/-- The levels under their names. -/
def levels : List (String × Nat) :=
  [("CRITICAL", 50), ("FATAL", 50), ("ERROR", 40), ("WARNING", 30), ("WARN", 30), ("INFO", 20),
   ("DEBUG", 10), ("NOTSET", 0)]

/-- The name that stands for a format among the names of levels. -/
def formatName : String := "BASIC_FORMAT"

/-- The format under the name of a format. -/
def basicFormat : String := "%(levelname)s:%(name)s:%(message)s"

/-- The least level of a name in letters of any case; an unknown name stands for `INFO`. -/
def levelOf (d : Datum) : Except LogSetupFault Nat :=
  let name := Text.upperName d.display
  if name = formatName then .error (.unknownLevel basicFormat)
  else .ok ((Table.find? levels name).getD 20)

/-- The format of log records if nothing else is set. -/
def plainFormat : String := "%(message)s"

/-- The format that a setting gives. -/
def formatOf (d : Datum) : Except LogSetupFault String :=
  if !d.truthy then .ok plainFormat
  else match d with
    | .str s => if hasField s.toList then .ok s else .error (.invalidFormat s)
    | _ => .error .notText

/-- The name of the file that a setting gives. -/
def fileOf (d : Datum) : Except LogSetupFault (Option String) :=
  if !d.truthy then .ok none
  else match d with
    | .str s => .ok (some s)
    | _ => .error .notText

/-- The files after the log file has been opened. -/
def openFile (files : FileTree) : Option String → Except LogSetupFault FileTree
  | none => .ok files
  | some name => (files.append name []).mapError fun f => .file f name

/-- The setup with a given file. -/
def withFile (s : Settings) (verbose : Bool) (file : Option String) :
    Except LogSetupFault LogSetup := do
  let format ← formatOf s.logFormat
  let level ← if verbose then pure 10 else levelOf s.logLevel
  return { level, format, file }

/-- The setup that settings give, with all records admitted if `verbose`, and the files after
that. The file is opened before anything else is looked at. -/
def ofSettings (s : Settings) (verbose : Bool) (files : FileTree) :
    Except LogSetupFault LogSetup × FileTree :=
  match fileOf s.logFile with
  | .error e => (.error e, files)
  | .ok file =>
    match openFile files file with
    | .error e => (.error e, files)
    | .ok files => (withFile s verbose file, files)

/-- Whether a record is of the least level. -/
def admits (setup : LogSetup) (r : LogRecord) : Bool :=
  setup.level ≤ r.level.severity

/-- A record as a line of the file. Nothing is written if the format does not fit. -/
def line? (setup : LogSetup) (r : LogRecord) : Option String := do
  let pieces ← FormatPiece.pieces? setup.format
  let texts ← pieces.mapM (FormatPiece.render? r)
  return String.join texts ++ "\n"

/-- The files after records have been added to the log file. -/
def keep (setup : LogSetup) (files : FileTree) (notes : List LogRecord) : FileTree :=
  match setup.file with
  | none => files
  | some name =>
    match files.append name (Utf8.encode (String.join (notes.filterMap setup.line?))) with
    | .ok files => files
    | .error _ => files

end LogSetup

end BlockDoc
