/-
# Composing a document

The main text is loaded and made ready for insertion, the template is loaded,
and then the template is processed: the main text and all documents it
includes go in, tokens are replaced by values and tables of contents, the
formulas are repaired, and the tables of contents are refreshed. A fault
stops the work before anything is written.

Key definitions: `Composer`, `checkPaths`, `processTemplate`,
`Composer.compose`, `Composer.run`.
-/
import Compositor.Document.Contents
import Compositor.Document.Formulas
import Compositor.Document.Insertion
import Compositor.Macro.Include
import Compositor.Macro.Properties
import Compositor.Settings

namespace Compositor
open Macro

/-- The result of composing a document. -/
structure Outcome where
  document : Document
  diagnostics : List Diagnostic
  includePasses : Nat
  /-- The names of the formulas, in document order. -/
  formulas : List String
  /-- How many formulas the repair changed. -/
  formulasFixed : Nat
  deriving Repr, DecidableEq, Inhabited

/-! ### Paths -/

/-- The names that lead to a path from the root. Two spellings of one file
differ here if only a file system can tell that they are one. -/
def namesFromRoot (files : FileSystem) (path : String) : List String :=
  Path.segments (files.absolute path)

/-- The template and the main text have to be there, the three paths have to
differ, and the output must not be there unless it may be overwritten. -/
def checkPaths (files : FileSystem) (template main output : String) (overwrite : Bool) :
    Except PathFault Unit :=
  if !files.isFile template then .error (.noFile "template" template)
  else if !files.isFile main then .error (.noFile "main text" main)
  else
    let template := namesFromRoot files template
    let main := namesFromRoot files main
    let target := namesFromRoot files output
    if template = main ∨ template = target ∨ main = target then .error .notDistinct
    else if files.contains output && !overwrite then .error (.outputExists output)
    else .ok ()

/-! ### Processing -/

/-- The blocks of a main text, ready for insertion. -/
def mainTextBlocks (d : Document) : List Block := dropBlankParagraphs d.anchorObjects.blocks

/-- The pass that replaces tokens by values and tables of contents. -/
def valuePass (table : LookupTable) (title : String) : Pass :=
  { handlers := [.value table, .contents title] }

/-- What processing a template did to its session: the number of include
passes, and the number of formulas that changed. -/
def processTemplate (w : Workspace) (settings : Settings) (table : LookupTable)
    (mainText : List Block) : Job (Nat × Nat) := do
  let includePasses ← includeDocuments w settings.includeDepthLimit (some mainText)
  let table := { table with counters := some (← get).document.counts }
  Job.notify (.stage "Substituting macros")
  let _ ← (valuePass table settings.title).run
  Job.notify (.stage "Fixing formulas")
  let formulasFixed ← Job.repairFormulas
  Job.notify (.stage "Updating indexes")
  Job.modifyDocument Document.refreshContents
  return (includePasses, formulasFixed)

/-- Composes documents by settings and a table of values. -/
structure Composer where
  settings : Settings
  table : LookupTable
  deriving Repr, Inhabited

namespace Composer

/-- A composer without values of the user. -/
def ofSettings (settings : Settings) (clock : Moment) : Composer :=
  ⟨settings, { locale := settings.locale, clock }⟩

/-- The composer with more values of the user. -/
def define (c : Composer) (pairs : List (String × String)) : Composer :=
  { c with table := c.table.insertAll pairs }

/-- Composes the document of a template and a main text. -/
def compose (c : Composer) (w : Workspace) (template main : String) : Except Fault Outcome := do
  let mainText ← (w.files.loadDocument main).mapError (.load main)
  let document ← (w.files.loadDocument template).mapError (.load template)
  match (processTemplate w c.settings c.table (mainTextBlocks mainText)).run { document } with
  | .error fault _ => .error fault
  | .ok (includePasses, formulasFixed) s =>
    return {
      document := s.document
      diagnostics := s.journal.diagnostics
      includePasses
      formulas := s.journal.formulas
      formulasFixed }

/-- The paths of the documents that are to be included but are not there. -/
def missingPaths (c : Composer) (w : Workspace) (template main : String) : List String :=
  match w.files.loadDocument main, w.files.loadDocument template with
  | .ok mainText, .ok document =>
    let job := includeDocuments w c.settings.includeDepthLimit (some (mainTextBlocks mainText))
    let missing :=
      match job.run { document } with
      | .ok _ s | .error _ s => s.journal.missing
    missing.map fun raw => w.resolve (((Token.parse? raw).bind Token.argument).getD "")
  | _, _ => []

/-- Checks the paths, composes the document and saves it. -/
def run (c : Composer) (w : Workspace) (template main output : String) (overwrite : Bool) :
    Except Fault (Outcome × FileSystem) := do
  (checkPaths w.files template main output overwrite).mapError .paths
  let outcome ← c.compose w template main
  let files ← (w.files.saveDocument outcome.document output).mapError (.output output)
  return (outcome, files)

end Composer

/-- The properties in a file of keys and values. -/
def loadProperties (files : FileSystem) (path : String) : Except Fault (List (String × String)) :=
  ((files.readText path).mapError (.macroFile path)).map parseProperties

end Compositor
