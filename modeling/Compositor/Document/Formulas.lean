/-
# Formulas of a document

The formulas of a document are repaired one after the other, in document
order. A formula whose text cannot be read stops the repair; those before it
are repaired then, and nothing else has changed.

Key definitions: `Repairs`, `repairBlocks`, `Job.repairFormulas`.
-/
import Compositor.Formula.Repair
import Compositor.Session

namespace Compositor

/-- The object of a block that is a formula. -/
def Block.formula? (b : Block) : Option EmbeddedObject :=
  b.object?.filter (·.kind = .formula)

/-- The formula with another text. -/
def EmbeddedObject.withFormula (o : EmbeddedObject) (text : String) : EmbeddedObject :=
  o.setProperty formulaProperty (.text text)

/-- What a repair of blocks did. -/
structure Repairs where
  blocks : List Block
  /-- The names of the formulas repaired, in order. -/
  names : List String := []
  /-- How many of them were not in order before. -/
  changed : Nat := 0
  /-- Why the next formula cannot be read. -/
  fault? : Option PropertyFault := none
  deriving Repr, DecidableEq

namespace Repairs

/-- What a repair did with one more block in front, which it left as it was. -/
def keep (b : Block) (r : Repairs) : Repairs := { r with blocks := b :: r.blocks }

/-- What a repair did with one more formula in front, which had the text
`text`. -/
def mend (o : EmbeddedObject) (text : String) (r : Repairs) : Repairs :=
  let mended := Formula.repair text
  { r with
    blocks := .object (o.withFormula mended) :: r.blocks
    names := o.name :: r.names
    changed := if mended = text then r.changed else r.changed + 1 }

/-- The number of formulas looked at: those repaired and the one at fault. -/
def visited (r : Repairs) : Nat := r.names.length + r.fault?.toList.length

end Repairs

/-- Repairs the formulas among the blocks, up to the first that cannot be
read. -/
def repairBlocks : List Block → Repairs
  | [] => { blocks := [] }
  | b :: bs =>
    match b.formula? with
    | none => (repairBlocks bs).keep b
    | some o =>
      match o.textProperty EmbeddedObject.formulaProperty with
      | .error fault => { blocks := b :: bs, fault? := some fault }
      | .ok text => (repairBlocks bs).mend o text

/-- The notices of the first `visited` of `total` things. -/
def countingNotices (visited total : Nat) : List Notice :=
  (List.range visited).map fun i => .count (i + 1) total

namespace Job

/-- Repairs the formulas of the document and counts those that changed. -/
def repairFormulas : Job Nat := do
  let s ← get
  let repairs := repairBlocks s.document.blocks
  let total := (s.document.objects .formula).length
  set
    { document := { s.document with blocks := repairs.blocks }
      journal := repairs.names.foldl Journal.register s.journal
      notices := s.notices ++ countingNotices repairs.visited total : Session }
  match repairs.fault? with
  | some fault => throw (.property fault)
  | none => return repairs.changed

end Job
end Compositor
