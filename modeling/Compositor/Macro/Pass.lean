/-
# Passes over a document

A pass finds all occurrences of a pattern first and then goes through them in
order. Each one that reads as a token goes to the first handler that accepts
it; the ranges of the others follow every edit that is made. An occurrence
whose text an edit took away is skipped.

Key definitions: `PassReport`, `dispatch`, `processAll`, `Pass`, `Pass.run`.
-/
import Compositor.Macro.Handler

namespace Compositor.Macro
open Text

/-- How many occurrences a pass found, and what became of them. -/
structure PassReport where
  scanned : Nat := 0
  substituted : Nat := 0
  skipped : Nat := 0
  deriving Repr, DecidableEq, Inhabited

namespace PassReport

/-- The report with one more occurrence, which led to an edit or not. -/
def count (report : PassReport) (edit? : Option Edit) : PassReport :=
  if edit?.isSome then { report with substituted := report.substituted + 1 }
  else { report with skipped := report.skipped + 1 }

end PassReport

/-- What a list of handlers did with a token. -/
structure Dispatch where
  accepted : Bool
  edit? : Option Edit
  handlers : List Handler

/-- Hands a token to the first handler that accepts it; those before it may
warn. -/
def dispatch (r : TextRange) (t : Token) : List Handler → Job Dispatch
  | [] => return ⟨false, none, []⟩
  | h :: hs =>
    match h.judge t with
    | .accept => do
      let (edit?, h) ← h.substitute r t
      return ⟨true, edit?, h :: hs⟩
    | .decline => do
      let d ← dispatch r t hs
      return { d with handlers := h :: d.handlers }
    | .refuse kind detail => do
      Job.warn kind t.raw detail
      let d ← dispatch r t hs
      return { d with handlers := h :: d.handlers }

/-- Processes the occurrence at a range: the edit made, if any, and the
handlers as they are then. A token that no handler accepts gets a warning,
unless its name is reserved. -/
def processOne (handlers : List Handler) (r : TextRange) : Job (Option Edit × List Handler) := do
  match Token.parse? (← Job.rangeText r) with
  | none => return (none, handlers)
  | some t =>
    let d ← dispatch r t handlers
    if d.accepted || t.isReserved then return (d.edit?, d.handlers)
    else
      Job.warn .unresolvedMacro t.raw "no substitution is defined"
      return (d.edit?, d.handlers)

/-- Processes the occurrences found at the given ranges. The first of them is
number `current` of `total`; `edits` were made since they were found. -/
def processAll (total : Nat) :
    (current : Nat) → (edits : List Edit) → List Handler → PassReport → List TextRange →
      Job PassReport
  | _, _, _, report, [] => return report
  | current, edits, handlers, report, r :: rs => do
    Job.notify (.count current total)
    match r.follow edits with
    | none => processAll total (current + 1) edits handlers (report.count none) rs
    | some r =>
      let (edit?, handlers) ← processOne handlers r
      processAll total (current + 1) (edits ++ edit?.toList) handlers (report.count edit?) rs

/-- A pass: what it looks for, and the handlers in the order in which they
are asked. -/
structure Pass where
  pattern : Pattern := macroPattern
  handlers : List Handler

/-- Goes through the document once. -/
def Pass.run (pass : Pass) : Job PassReport := do
  let ranges := (← get).document.search pass.pattern
  processAll ranges.length 1 [] pass.handlers { scanned := ranges.length } ranges

end Compositor.Macro
