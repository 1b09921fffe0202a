import Compositor.Desk
import Compositor.Main
import Compositor.Proofs.Text.Avoids
import Compositor.Proofs.Formula.Matches
import Compositor.Proofs.Formula.NormalForm
import Compositor.Proofs.Document.Edits
import Compositor.Proofs.Document.Following
import Compositor.Proofs.Document.Rebasing
import Compositor.Proofs.Document.Replacing
import Compositor.Proofs.Document.Search
import Compositor.Proofs.Macro.Dispatch
import Compositor.Proofs.Macro.Tokens
import Compositor.Proofs.Macro.Walk
import Compositor.Proofs.Macro.Order
import Compositor.Proofs.File.Loadable
import Compositor.Proofs.Macro.Directives
import Compositor.Proofs.Macro.IncludePass
import Compositor.Proofs.Macro.Inclusion
import Compositor.Proofs.Composer.Names
import Compositor.Proofs.Composer.Overrides
import Compositor.Proofs.Document.Identity
import Compositor.Proofs.Macro.ValuePass
import Compositor.Proofs.Macro.Reporting
import Compositor.Proofs.Composer.Files
import Compositor.Proofs.Document.Readback
import Compositor.Proofs.File.Saving
import Compositor.Proofs.Calendar.DatePatterns
import Compositor.Proofs.Composer.Contents
import Compositor.Proofs.Composer.Counts
import Compositor.Proofs.Document.InPlace
import Compositor.Proofs.Macro.MainText
import Compositor.Proofs.Text.Endings
import Compositor.Proofs.Text.Rewriting
import Compositor.Proofs.Formula.Grouping
import Compositor.Proofs.Formula.Operands
import Compositor.Proofs.Document.Repairing
import Compositor.Proofs.Formula.LooseMarks
import Compositor.Proofs.Formula.Stacks
import Compositor.Proofs.Formula.Folding
import Compositor.Proofs.Macro.Scans
import Compositor.Proofs.Macro.UnicodeEscapes
import Compositor.Proofs.Formula.Rounds
import Compositor.Proofs.Document.Importing
import Compositor.Proofs.Document.FormatsAmong
import Compositor.Proofs.Document.Headings
import Compositor.Proofs.File.LoadedFormats
