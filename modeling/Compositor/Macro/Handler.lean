/-
# Handlers of tokens

A handler first judges a token, and if it accepts the token it replaces it,
or leaves it in place on purpose. There are four: one includes documents, one
inserts the main text, once, one puts in values, and one inserts tables of
contents.

Key definitions: `Handler`, `Handler.judge`, `Handler.substitute`.
-/
import Compositor.Document.Contents
import Compositor.Macro.Lookup
import Compositor.Session
import Compositor.Workspace

namespace Compositor.Macro

inductive Handler where
  /-- Includes documents of a workspace. -/
  | inclusion (workspace : Workspace)
  /-- Inserts the main text, if it is still there to be inserted. -/
  | mainText (content? : Option (List Block))
  /-- Puts in the values of a table. -/
  | value (table : LookupTable)
  /-- Inserts tables of contents under a title. -/
  | contents (title : String)

inductive Verdict where
  | accept
  | decline
  /-- Declined, with a warning. -/
  | refuse (kind : DiagnosticKind) (detail : String)
  deriving Repr, DecidableEq

def Token.isReserved (t : Token) : Bool := Macro.isReserved t.name

/-- Did the user give a value for the token or for its name? -/
def LookupTable.overrides (table : LookupTable) (t : Token) : Bool :=
  table.hasStatic t.key || table.hasStatic t.name

namespace Handler

/-- Accepted or declined. -/
def verdict (accepted : Bool) : Verdict := if accepted then .accept else .decline

/-- What a handler thinks of a token. Values never answer a reserved name;
a user's value under one is refused. -/
def judge (t : Token) : Handler → Verdict
  | inclusion _ => verdict (t.name = includeName && t.argument.isSome)
  | mainText _ => verdict (t.isJust mainTextName)
  | contents _ => verdict (t.isJust contentsName)
  | value table =>
    if t.isReserved then
      if table.overrides t then
        .refuse .forbiddenOverride ("'" ++ t.key ++ "' is reserved and cannot be redefined")
      else .decline
    else verdict (table.lookup? t.key).isSome

/-- Includes the document that a directive names. A directive whose file does
not exist stays in place and is reported the first time it is met. -/
def includeDocument (w : Workspace) (r : TextRange) (t : Token) : Job (Option Edit) := do
  if (← get).journal.isMissing t.raw then return none
  else
    let path := w.resolve (t.argument.getD "")
    if w.files.isFile path then
      let d ← Job.lift ((w.files.loadDocument path).mapError (.load path))
      return some (← Job.edit (·.splice r d.blocks))
    else
      Job.modifyJournal (·.markMissing t.raw)
      Job.warn .missingInclude t.raw ("file " ++ path ++ " does not exist")
      return none

/-- A table of contents without entries. -/
def emptyContents (title : String) : Block := .contents { title }

/-- Replaces a token that the handler has accepted. The result is the edit
made, if any, and the handler as it is from now on. -/
def substitute (r : TextRange) (t : Token) : Handler → Job (Option Edit × Handler)
  | inclusion w => do return (← includeDocument w r t, inclusion w)
  | mainText none => do
    Job.warn .extraMainText t.raw "main text is already inserted; occurrence left as is"
    return (none, mainText none)
  | mainText (some content) => do
    return (some (← Job.edit (·.splice r content)), mainText none)
  | value table =>
    match table.lookup? t.key with
    | some text => do return (some (← Job.edit (·.replaceText r text)), value table)
    | none => return (none, value table)
  | contents title => do
    let e ← Job.edit (·.splice r [emptyContents title])
    Job.modifyDocument Document.refreshContents
    return (some e, contents title)

end Handler
end Compositor.Macro
