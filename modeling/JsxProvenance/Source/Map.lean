import JsxProvenance.Source.Lines

/-!
A source map gives the files of a program their places in one common range of
positions. The first file starts at 1, and one position is left free after
each file, so that the end of one file is never the start of the next. A
position belongs to the last file that starts at or before it: the free
position after a file, and everything beyond the last one, count as part of
the file before. Position 0 belongs to no file.

Most files have a name of their own; text that was made up along the way is
known by how it came about, and is displayed in angle brackets so that it is
not taken for a path.
-/

namespace JsxProvenance

/-- The names a source file may go by. -/
inductive FileName where
  | custom (name : String)
  | path (name : String)
  | url (address : String)
  | internal (name : String)
  | macros (name : String)
  | anonymous
  | quoteExpansion
  | macroExpansion
  | procMacroSource
deriving DecidableEq, Repr

/-- The name as it is shown to people and written into attributes. -/
def FileName.display : FileName → String
  | .custom name | .path name | .url name => name
  | .internal name => "<" ++ name ++ ">"
  | .macros name => "<" ++ name ++ " macros>"
  | .anonymous => "<anon>"
  | .quoteExpansion => "<quote expansion>"
  | .macroExpansion => "<macro expansion>"
  | .procMacroSource => "<proc-macro source code>"

/-- A file as it is handed over, byte order mark included. -/
structure SourceFile where
  name : FileName
  text : String
deriving DecidableEq, Repr

namespace SourceFile

/-- Removes one byte order mark from the front of a text; a second one stays. -/
def dropMark : List Char → List Char
  | '\uFEFF' :: rest => rest
  | text => text

/-- The bytes of a file that positions count: its text in UTF-8, without a
leading byte order mark. -/
def bytes (file : SourceFile) : List UInt8 :=
  (String.ofList (dropMark file.text.toList)).toUTF8.data.toList

end SourceFile

/-- A file with its place among the positions. -/
structure PlacedFile where
  name : FileName
  start : Nat
  lineStarts : List Nat
deriving DecidableEq, Repr

namespace PlacedFile

/-- Places a file at a position. -/
def ofFile (start : Nat) (file : SourceFile) : PlacedFile where
  name := file.name
  start := start
  lineStarts := Lines.starts start file.bytes

/-- The line that holds a position, counted from 1. A file without bytes has
no lines, and every position in it is on line 0. -/
def lineAt (file : PlacedFile) (pos : Nat) : Nat :=
  file.lineStarts.countP (· ≤ pos)

end PlacedFile

/-- The placed files of a program, by ascending start. -/
structure SourceMap where
  files : List PlacedFile
deriving DecidableEq, Repr

namespace SourceMap

/-- Places files one after the other, the first one at `start`. -/
def layout (start : Nat) : List SourceFile → List PlacedFile
  | [] => []
  | file :: rest => .ofFile start file :: layout (start + file.bytes.length + 1) rest

/-- The position at which the file with the given number starts. -/
def startOf : List SourceFile → Nat → Nat
  | file :: rest, number + 1 => file.bytes.length + 1 + startOf rest number
  | _, _ => 1

/-- The source map of a list of files. -/
def ofFiles (files : List SourceFile) : SourceMap :=
  ⟨layout 1 files⟩

/-- The file that a position belongs to. -/
def fileAt? (map : SourceMap) (pos : Nat) : Option PlacedFile :=
  (map.files.filter (·.start ≤ pos)).getLast?

/-- The line of a position within its file. -/
def lineAt? (map : SourceMap) (pos : Nat) : Option Nat :=
  (map.fileAt? pos).map (·.lineAt pos)

end SourceMap

/-- No file holds the position. -/
structure NoFileFor where
  pos : Nat
deriving DecidableEq, Repr

/-- The bare position, in decimal. -/
def NoFileFor.message (error : NoFileFor) : String :=
  toString error.pos

end JsxProvenance
