/-
# Journals

A journal belongs to one document that is processed. It keeps what must not
leak into the next one: the include directives whose files are missing, the
problems that do not stop the work, and the names of the formulas repaired.

Key definitions: `Diagnostic`, `Journal`, `Journal.warn`,
`Journal.markMissing`.
-/
namespace Compositor

/-- A kind of problem that does not stop the work. -/
inductive DiagnosticKind where
  /-- A directive includes a file that does not exist. -/
  | missingInclude
  /-- Nothing is defined for a token, and its name is not reserved. -/
  | unresolvedMacro
  /-- A user's value stands under a reserved name. -/
  | forbiddenOverride
  /-- The template has no place for the main text. -/
  | missingMainText
  /-- The template has more than one place for the main text. -/
  | extraMainText
  deriving Repr, DecidableEq, Inhabited

/-- A problem, and the token that it is about. -/
structure Diagnostic where
  kind : DiagnosticKind
  subject : String
  detail : String
  deriving Repr, DecidableEq, Inhabited

def Diagnostic.message (d : Diagnostic) : String :=
  if d.subject.isEmpty then d.detail else d.subject ++ ": " ++ d.detail

/-- What is known about the document at hand: its missing directives, the
latest first, its diagnostics, and the formulas registered. -/
structure Journal where
  missing : List String := []
  diagnostics : List Diagnostic := []
  formulas : List String := []
  deriving Repr, DecidableEq, Inhabited

namespace Journal

def warn (j : Journal) (kind : DiagnosticKind) (subject detail : String) : Journal :=
  { j with diagnostics := j.diagnostics ++ [⟨kind, subject, detail⟩] }

/-- The diagnostics of one kind. -/
def ofKind (j : Journal) (kind : DiagnosticKind) : List Diagnostic :=
  j.diagnostics.filter (·.kind = kind)

/-- The journal without its diagnostics. -/
def withoutDiagnostics (j : Journal) : Journal := { j with diagnostics := [] }

/-- Is the directive known to be missing? -/
def isMissing (j : Journal) (directive : String) : Bool := directive ∈ j.missing

/-- The journal with one more missing directive, unless it is there already. -/
def markMissing (j : Journal) (directive : String) : Journal :=
  if j.isMissing directive then j else { j with missing := directive :: j.missing }

/-- The journal with one more formula. -/
def register (j : Journal) (name : String) : Journal := { j with formulas := j.formulas ++ [name] }

end Journal
end Compositor
