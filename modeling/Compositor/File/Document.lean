/-
# Documents in files

The extension of a file says what it holds: `json` a snapshot, `docx` a word
processor document, and anything else plain text. A document is saved as a
snapshot, as Markdown (`md` or `markdown`) or as plain text.

Key definitions: `LoadFault`, `FileSystem.loadDocument`,
`FileSystem.saveDocument`.
-/
import Compositor.Document.Export
import Compositor.Document.Fragment
import Compositor.Document.Snapshot
import Compositor.File.Archive
import Compositor.File.System

namespace Compositor

/-- Why a file holds no document that can be loaded. -/
inductive LoadFault where
  | os (fault : OsFault)
  /-- The bytes are no text. -/
  | notText
  /-- An archive without the body of a word processor document. -/
  | notWord (isSpreadsheet : Bool)
  /-- No snapshot, no archive, or a body that cannot be read. -/
  | malformed
  deriving Repr, DecidableEq

def LoadFault.message : LoadFault → String
  | os fault => fault.message
  | notText => "stream did not contain valid UTF-8"
  | notWord true =>
    "This appears to be an Excel file (.xlsx).\nOnly Word documents (.docx) can be imported."
  | notWord false =>
    "Invalid .docx file: missing word/document.xml\n"
      ++ "This file may be corrupted or is not a valid Word document."
  | malformed => "malformed content"

/-- The entry of an archive that holds the body of a word processor document. -/
def wordEntry : String := "word/document.xml"

/-- The entry of an archive that a spreadsheet has. -/
def spreadsheetEntry : String := "xl/workbook.xml"

/-- The names of the entries, if the content is an archive. -/
def Content.entryNames? : Content → Option (List String)
  | text s => Archive.names? s.toUTF8.toList
  | word _ => some [wordEntry]
  | archive names => some names
  | binary bytes => Archive.names? bytes

/-- The extension of snapshots. -/
def snapshotExtension : String := "json"

/-- The extension of word processor documents. -/
def wordExtension : String := "docx"

/-- The title of a document in a file without a name. -/
def untitled : String := "Untitled Document"

/-- The title of the document in a file: its name without the extension. -/
def titleOf (path : String) : String := (Path.stem? path).getD untitled

/-- The text of a document in a file with an extension. -/
def Document.savedAs (d : Document) (extension : String) : String :=
  if extension = snapshotExtension then d.snapshot
  else if extension = "md" ∨ extension = "markdown" then d.render .markdown
  else d.render .text

namespace FileSystem

/-- The text of a file. -/
def readText (fs : FileSystem) (path : String) : Except LoadFault String :=
  match fs.read path with
  | .ok (.text s) => .ok s
  | .ok _ => .error .notText
  | .error e => .error (.os e)

/-- The body of a word processor document. -/
def readWord (fs : FileSystem) (path : String) : Except LoadFault (List Word.BodyItem) :=
  match fs.read path with
  | .ok (.word body) => .ok body
  | .ok content =>
    match content.entryNames? with
    | none => .error .malformed
    | some names =>
      if wordEntry ∈ names then .error .malformed
      else .error (.notWord (spreadsheetEntry ∈ names))
  | .error .isADirectory => .error .malformed
  | .error e => .error (.os e)

/-- The document in the file where a path leads. -/
def loadDocument (fs : FileSystem) (path : String) : Except LoadFault Document :=
  let extension := Path.extension path
  if extension = snapshotExtension then do
    match Document.ofSnapshot? (← fs.readText path) with
    | some d => return d
    | none => throw .malformed
  else if extension = wordExtension then do
    let body ← fs.readWord path
    let d := Document.ofBlocks (titleOf path) (Word.importBody 1 body)
    return { d with metadata := { filePath := path } }
  else do
    let content ← fs.readText path
    let d := Fragment.parse (titleOf path) content
    return { d with metadata := { filePath := path, fileSize := Text.size content.toList } }

/-- The file system with a document saved where a path leads. -/
def saveDocument (fs : FileSystem) (d : Document) (path : String) : Except OsFault FileSystem :=
  fs.write path (.text (d.savedAs (Path.extension path)))

end FileSystem
end Compositor
