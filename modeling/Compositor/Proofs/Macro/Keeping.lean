/-
# What passes keep

Passes and the inclusion of documents are put together from a few things that
a session can undergo: a notice, a warning, and what a handler does with a
token. A relation between sessions that is kept by each of these is kept by a
pass of any length and by any number of passes, whatever the handlers are and
wherever a fault stops the work. If only certain handlers keep it, the passes
with these handlers do, as long as none of them becomes another one.

What a handler does comes down to a few things as well: text or blocks that it
puts in, a refresh, a warning and the report of a missing file.

Key definitions: `Handler.ActsWithin`, `KeptByHandlers`, `KeptBy`.
Key theorems: `Handler.ActsWithin.yields_substitute`, `KeptBy.dispatch`,
`KeptBy.progress`, `KeptBy.run`, `KeptBy.includeDocuments`.
-/
import Compositor.Macro.Include
import Compositor.Proofs.Keeping
import Compositor.Proofs.Macro.Kinds
import Compositor.Proofs.Macro.Walk

namespace Compositor.Macro
open Job

/-! ### Handlers -/

namespace Handler

/-- Blocks that the handler may put in for a token. -/
inductive Brings : Handler → List Block → Prop
  | document {w : Workspace} {path : String} {d : Document} :
    w.files.loadDocument path = .ok d → Brings (.inclusion w) d.blocks
  | mainText (content : List Block) : Brings (.mainText (some content)) content
  | contents (title : String) : Brings (.contents title) [emptyContents title]

/-- Each thing that the handler may do keeps the relation. A file is reported
only if it is not known to be missing. -/
structure ActsWithin (rel : Session → Session → Prop) (fault : Fault → Prop) (h : Handler) :
    Prop where
  refl : ∀ s, rel s s
  trans : ∀ s s' s'', rel s s' → rel s' s'' → rel s s''
  stale : ∀ e, fault (.stale e)
  load : ∀ path e, fault (.load path e)
  splice : ∀ bs, h.Brings bs → ∀ s r d e, s.document.splice r bs = .ok (d, e) →
    rel s { s with document := d }
  replaceText : ∀ s r new d e, s.document.replaceText r new = .ok (d, e) →
    rel s { s with document := d }
  refresh : ∀ s, rel s { s with document := s.document.refreshContents }
  report : ∀ s x detail, s.journal.isMissing x = false →
    rel s { s with journal := (s.journal.markMissing x).warn .missingInclude x detail }
  warn : ∀ s kind subject detail, kind ≠ .missingInclude →
    rel s { s with journal := s.journal.warn kind subject detail }

namespace ActsWithin

variable {rel : Session → Session → Prop} {fault : Fault → Prop} {h : Handler}

theorem keeps_splice (hacts : h.ActsWithin rel fault) {bs : List Block} (hbs : h.Brings bs)
    (r : TextRange) : (edit (·.splice r bs)).Keeps rel fault :=
  keeps_edit hacts.refl hacts.stale fun s d e he => hacts.splice bs hbs s r d e he

theorem keeps_replaceText (hacts : h.ActsWithin rel fault) (r : TextRange) (new : String) :
    (edit (·.replaceText r new)).Keeps rel fault :=
  keeps_edit hacts.refl hacts.stale fun s d e he => hacts.replaceText s r new d e he

/-- The test for a missing file and the report of it are about one journal, so
the job is opened there. -/
theorem keeps_includeDocument {w : Workspace} (hacts : (inclusion w).ActsWithin rel fault)
    (r : TextRange) (t : Token) : (includeDocument w r t).Keeps rel fault := by
  refine ⟨fun s => leaves_bind (leaves_get ?_)⟩
  by_cases hknown : s.journal.isMissing t.raw = true
  · rw [if_pos hknown]
    exact leaves_pure (hacts.refl s)
  · rw [if_neg hknown]
    dsimp only
    generalize w.resolve (t.argument.getD "") = path
    by_cases hfile : w.files.isFile path = true
    · rw [if_pos hfile]
      cases hload : w.files.loadDocument path with
      | error cause => exact leaves_bind (leaves_throw ⟨hacts.refl s, hacts.load path cause⟩)
      | ok d =>
        have hedit : (do
            return some (← edit (·.splice r d.blocks)) : Job (Option Edit)).Keeps rel fault :=
          (hacts.keeps_splice (.document hload) r).bind hacts.trans fun e =>
            keeps_pure hacts.refl (some e)
        exact leaves_bind (leaves_pure (hedit.leaves s))
    · rw [if_neg hfile]
      have hnew : s.journal.isMissing t.raw = false := Bool.eq_false_iff.mpr hknown
      exact leaves_bind (leaves_modifyJournal (leaves_bind (leaves_warn (leaves_pure
        (hacts.report s _ _ hnew)))))

/-- The handler stays as it is, unless it has put in the main text. -/
theorem yields_substitute (hacts : h.ActsWithin rel fault) (among : Handler → Prop)
    (hself : among h) (hspent : ∀ content, h = mainText (some content) → among (mainText none))
    (r : TextRange) (t : Token) :
    (h.substitute r t).Yields rel fault fun done => among done.2 := by
  cases h with
  | inclusion w =>
    exact (hacts.keeps_includeDocument r t).then hacts.trans fun _ =>
      yields_pure hacts.refl hself
  | mainText content? =>
    cases content? with
    | none =>
      exact (keeps_warn fun s => hacts.warn s _ _ _ (by decide)).then hacts.trans fun _ =>
        yields_pure hacts.refl hself
    | some content =>
      exact (hacts.keeps_splice (.mainText content) r).then hacts.trans fun _ =>
        yields_pure hacts.refl (hspent content rfl)
  | value table =>
    simp only [substitute]
    split
    · exact (hacts.keeps_replaceText r _).then hacts.trans fun _ => yields_pure hacts.refl hself
    · exact yields_pure hacts.refl hself
  | contents title =>
    refine (hacts.keeps_splice (.contents title) r).then hacts.trans fun _ => ?_
    exact (keeps_modifyDocument hacts.refresh).then hacts.trans fun _ =>
      yields_pure hacts.refl hself

theorem keeps_substitute (hacts : h.ActsWithin rel fault) (r : TextRange) (t : Token) :
    (h.substitute r t).Keeps rel fault :=
  (hacts.yields_substitute (fun _ => True) trivial (fun _ _ => trivial) r t).keeps

end ActsWithin
end Handler

/-! ### What is kept by handlers -/

/-- The relation is kept by all that a pass is made of. No pass itself warns
of a missing file; a handler may. -/
structure KeptByHandlers (rel : Session → Session → Prop) (fault : Fault → Prop) : Prop where
  refl : ∀ s, rel s s
  trans : ∀ s s' s'', rel s s' → rel s' s'' → rel s s''
  notify : ∀ s n, rel s { s with notices := s.notices ++ [n] }
  warn : ∀ s kind subject detail, kind ≠ .missingInclude →
    rel s { s with journal := s.journal.warn kind subject detail }
  stale : ∀ e, fault (.stale e)
  substitute : ∀ r t (h : Handler), (h.substitute r t).Keeps rel fault

/-- The relation is kept by all that a pass is made of whose handlers are
among certain ones, and these become such handlers only. -/
structure KeptBy (among : Handler → Prop) (rel : Session → Session → Prop)
    (fault : Fault → Prop) : Prop where
  refl : ∀ s, rel s s
  trans : ∀ s s' s'', rel s s' → rel s' s'' → rel s s''
  notify : ∀ s n, rel s { s with notices := s.notices ++ [n] }
  warn : ∀ s kind subject detail, kind ≠ .missingInclude →
    rel s { s with journal := s.journal.warn kind subject detail }
  stale : ∀ e, fault (.stale e)
  substitute : ∀ r t h, among h → (h.substitute r t).Yields rel fault fun done => among done.2

theorem KeptByHandlers.keptBy {rel : Session → Session → Prop} {fault : Fault → Prop}
    (h : KeptByHandlers rel fault) : KeptBy (fun _ => True) rel fault where
  refl := h.refl
  trans := h.trans
  notify := h.notify
  warn := h.warn
  stale := h.stale
  substitute r t g _ := (h.substitute r t g).yields fun _ => trivial

/-! ### Passes -/

namespace KeptBy

variable {among : Handler → Prop} {rel : Session → Session → Prop} {fault : Fault → Prop}

theorem dispatch (h : KeptBy among rel fault) (r : TextRange) (t : Token)
    {handlers : List Handler} (hall : ∀ g ∈ handlers, among g) :
    (dispatch r t handlers).Yields rel fault fun d => ∀ g ∈ d.handlers, among g := by
  induction handlers with
  | nil => exact yields_pure h.refl hall
  | cons handler handlers ih =>
    obtain ⟨hfirst, hothers⟩ := List.forall_mem_cons.mp hall
    have hrest : (do
        let d ← Macro.dispatch r t handlers
        return { d with handlers := handler :: d.handlers }).Yields rel fault
          fun d : Dispatch => ∀ g ∈ d.handlers, among g :=
      (ih hothers).bind h.trans fun d hd =>
        yields_pure h.refl (List.forall_mem_cons.mpr ⟨hfirst, hd⟩)
    unfold Macro.dispatch
    cases hjudge : handler.judge t with
    | accept =>
      refine (h.substitute r t handler hfirst).bind h.trans fun done hdone => ?_
      exact yields_pure h.refl (List.forall_mem_cons.mpr ⟨hdone, hothers⟩)
    | decline => exact hrest
    | refuse kind detail =>
      have hkind : kind ≠ .missingInclude := by
        rw [Handler.kind_of_refuse hjudge]
        decide
      exact (keeps_warn fun s => h.warn s _ _ _ hkind).then h.trans fun _ => hrest

theorem visit (h : KeptBy among rel fault) (total : Nat) {k : Walk}
    (hall : ∀ g ∈ k.handlers, among g) (r : TextRange) :
    (k.visit total r).Yields rel fault fun k' => ∀ g ∈ k'.handlers, among g := by
  refine (keeps_notify fun s => h.notify s _).then h.trans fun _ => ?_
  split
  · exact yields_pure h.refl hall
  · refine (keeps_rangeText h.trans h.refl h.stale _).then h.trans fun text => ?_
    split
    · exact yields_pure h.refl hall
    · refine (h.dispatch _ _ hall).bind h.trans fun d hd => ?_
      split
      · exact yields_pure h.refl hd
      · refine Keeps.then h.trans ?_ fun _ => yields_pure h.refl hd
        exact keeps_warn fun s => h.warn s _ _ _ (by decide)

theorem visits (h : KeptBy among rel fault) (total : Nat) {k : Walk}
    (hall : ∀ g ∈ k.handlers, among g) (ranges : List TextRange) :
    (ranges.foldlM (Walk.visit total) k).Yields rel fault fun k' =>
      ∀ g ∈ k'.handlers, among g := by
  induction ranges generalizing k with
  | nil => exact yields_pure h.refl hall
  | cons r ranges ih =>
    rw [List.foldlM_cons]
    exact (h.visit total hall r).bind h.trans fun _ => ih

/-- The first visits of a pass keep the relation. -/
theorem progress (h : KeptBy among rel fault) {pass : Pass}
    (hall : ∀ g ∈ pass.handlers, among g) (i : Nat) : (pass.progress i).Keeps rel fault :=
  (keeps_get h.refl).bind h.trans fun _ => (h.visits _ hall _).keeps

/-- A pass keeps the relation. -/
theorem run (h : KeptBy among rel fault) {pass : Pass} (hall : ∀ g ∈ pass.handlers, among g) :
    pass.run.Keeps rel fault := by
  refine (keeps_get h.refl).bind h.trans fun s => ?_
  have hwalk := processAll_eq_foldlM (s.document.search pass.pattern).length
    { handlers := pass.handlers, report := { scanned := (s.document.search pass.pattern).length } }
    (s.document.search pass.pattern)
  dsimp only at hwalk ⊢
  rw [hwalk]
  exact (h.visits _ hall _).keeps.bind h.trans fun _ => keeps_pure h.refl _

/-! ### Inclusion -/

theorem insertMainText (h : KeptBy among rel fault) {content : List Block}
    (hcontent : among (.mainText (some content))) :
    (insertMainText content).Keeps rel fault := by
  refine (keeps_notify fun s => h.notify s _).bind h.trans fun _ => ?_
  have hpass : (Pass.run ⟨mainTextPattern, [.mainText (some content)]⟩).Keeps rel fault :=
    h.run fun g hg => List.mem_singleton.mp hg ▸ hcontent
  refine hpass.bind h.trans fun report => ?_
  split
  · exact keeps_warn fun s => h.warn s _ _ _ (by decide)
  · exact keeps_pure h.refl ()

theorem pendingDirective? (h : KeptBy among rel fault) : pendingDirective?.Keeps rel fault := by
  refine (keeps_get h.refl).bind h.trans fun s => ?_
  exact (keeps_lift_stale h.refl h.stale _).bind h.trans fun _ => keeps_pure h.refl _

/-- Inclusion stops besides where documents are nested too deeply. -/
theorem includeAll (h : KeptBy among rel fault)
    (hdeep : ∀ limit x, fault (.includeTooDeep limit x)) {w : Workspace}
    (hw : among (.inclusion w)) (limit left : Nat) :
    (includeAll w limit left).Keeps rel fault := by
  induction left with
  | zero =>
    refine h.pendingDirective?.bind h.trans fun pending? => ?_
    cases pending? with
    | none => exact keeps_pure h.refl 0
    | some pending => exact keeps_throw h.refl (hdeep limit pending)
  | succ left ih =>
    refine h.pendingDirective?.bind h.trans fun pending? => ?_
    cases pending? with
    | none => exact keeps_pure h.refl 0
    | some pending =>
      have hpass : (includePass w).run.Keeps rel fault :=
        h.run fun g hg => List.mem_singleton.mp hg ▸ hw
      exact hpass.bind h.trans fun _ => ih.bind h.trans fun _ => keeps_pure h.refl _

/-- The inclusion of documents keeps the relation, also where it fails. -/
theorem includeDocuments (h : KeptBy among rel fault)
    (hdeep : ∀ limit x, fault (.includeTooDeep limit x)) {w : Workspace}
    (hw : among (.inclusion w)) (limit : Nat) {mainText? : Option (List Block)}
    (hcontent : ∀ content, mainText? = some content → among (.mainText (some content))) :
    (includeDocuments w limit mainText?).Keeps rel fault := by
  have hrest : (do
      Job.notify (.stage "Including documents")
      Macro.includeAll w limit limit : Job Nat).Keeps rel fault :=
    (keeps_notify fun s => h.notify s _).bind h.trans fun _ => h.includeAll hdeep hw limit limit
  cases mainText? with
  | none => exact (keeps_pure h.refl ()).bind h.trans fun _ => hrest
  | some content => exact (h.insertMainText (hcontent content rfl)).bind h.trans fun _ => hrest

end KeptBy

/-! ### All handlers -/

namespace KeptByHandlers

variable {rel : Session → Session → Prop} {fault : Fault → Prop}

theorem progress (h : KeptByHandlers rel fault) (pass : Pass) (i : Nat) :
    (pass.progress i).Keeps rel fault := h.keptBy.progress (fun _ _ => trivial) i

theorem run (h : KeptByHandlers rel fault) (pass : Pass) : pass.run.Keeps rel fault :=
  h.keptBy.run fun _ _ => trivial

theorem insertMainText (h : KeptByHandlers rel fault) (content : List Block) :
    (insertMainText content).Keeps rel fault := h.keptBy.insertMainText trivial

theorem pendingDirective? (h : KeptByHandlers rel fault) :
    pendingDirective?.Keeps rel fault := h.keptBy.pendingDirective?

theorem includeDocuments (h : KeptByHandlers rel fault)
    (hdeep : ∀ limit x, fault (.includeTooDeep limit x)) (w : Workspace) (limit : Nat)
    (mainText? : Option (List Block)) :
    (includeDocuments w limit mainText?).Keeps rel fault :=
  h.keptBy.includeDocuments hdeep trivial limit fun _ _ => trivial

end KeptByHandlers
end Compositor.Macro
