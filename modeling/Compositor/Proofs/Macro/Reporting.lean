/-
# Missing files are reported once

A directive whose file is missing is remembered and reported the first time
it is met. What is remembered outlasts the pass, the call and, where a call
fails, the failure; so over any number of calls that share a journal, the
directives reported are those remembered, each of them once.

A call that ends leaves no other directives than those remembered. One that
stops for its limit names the first directive, in document order, that is not
among them.

Key definitions: `Journal.IsFaithful`, `Inclusion`, `Inclusion.PassesThrough`,
`journalAfter`.
Key theorems: `Journal.IsFaithful.report`, `Handler.actsWithin_staysFaithful`,
`PassesThrough.keeps`, `includeAll_leaves`, `missing_reported_once`.
-/
import Compositor.Proofs.Document.Identity
import Compositor.Proofs.Macro.IncludePass

namespace Compositor

/-! ### What is reported and what is remembered -/

namespace Journal

/-- The directives reported for their missing files, in the order of the
reports. -/
def reported (j : Journal) : List String := (j.ofKind .missingInclude).map (·.subject)

/-- The directives reported are those known to be missing, each of them
reported once. -/
structure IsFaithful (j : Journal) : Prop where
  distinct : j.reported.Nodup
  mem_iff : ∀ x, x ∈ j.reported ↔ j.isMissing x = true

theorem isFaithful_empty : IsFaithful {} := by
  refine ⟨List.nodup_nil, fun x => ?_⟩
  simp only [reported, ofKind, isMissing, List.filter_nil, List.map_nil, List.not_mem_nil,
    decide_false, Bool.false_eq_true]

theorem reported_warn (j : Journal) (subject detail : String) :
    (j.warn .missingInclude subject detail).reported = j.reported ++ [subject] := by
  rw [reported, ofKind, warn, List.filter_append, List.map_append]
  rfl

theorem reported_warn_of_ne (j : Journal) {kind : DiagnosticKind} (hkind : kind ≠ .missingInclude)
    (subject detail : String) : (j.warn kind subject detail).reported = j.reported := by
  have hnone : [(⟨kind, subject, detail⟩ : Diagnostic)].filter (·.kind = .missingInclude) = [] :=
    List.filter_eq_nil_iff.mpr fun d hd => by
      rw [List.mem_singleton] at hd
      simpa [hd] using hkind
  rw [reported, ofKind, warn, List.filter_append, hnone, List.append_nil]
  rfl

theorem IsFaithful.warn {j : Journal} (h : j.IsFaithful) {kind : DiagnosticKind}
    (hkind : kind ≠ .missingInclude) (subject detail : String) :
    (j.warn kind subject detail).IsFaithful := by
  have hreported := j.reported_warn_of_ne hkind subject detail
  exact ⟨hreported ▸ h.distinct, hreported ▸ h.mem_iff⟩

/-- A directive that is not known to be missing may be remembered and reported
together. -/
theorem IsFaithful.report {j : Journal} (h : j.IsFaithful) {x : String}
    (hx : j.isMissing x = false) (detail : String) :
    ((j.markMissing x).warn .missingInclude x detail).IsFaithful := by
  have hkept : (j.markMissing x).reported = j.reported := by
    unfold markMissing
    split <;> rfl
  have hnew : x ∉ j.reported := by
    rw [h.mem_iff, hx]
    exact Bool.false_ne_true
  refine ⟨?_, fun y => ?_⟩
  · rw [reported_warn, hkept]
    exact List.nodup_append.mpr ⟨h.distinct, List.pairwise_singleton _ x, fun y hy z hz he => by
      rw [List.mem_singleton] at hz
      exact hnew (hz ▸ he ▸ hy)⟩
  · calc y ∈ ((j.markMissing x).warn .missingInclude x detail).reported
        ↔ y ∈ j.reported ∨ y = x := by
          rw [reported_warn, hkept, List.mem_append, List.mem_singleton]
      _ ↔ j.isMissing y = true ∨ y = x := or_congr_left (h.mem_iff y)
      _ ↔ (j.markMissing x).isMissing y = true := (isMissing_markMissing_iff j x y).symm

end Journal

namespace Session

/-- If the journal was faithful before, it is faithful after. -/
def StaysFaithful (s s' : Session) : Prop := s.journal.IsFaithful → s'.journal.IsFaithful

theorem staysFaithful_of_journal_eq {s s' : Session} (h : s'.journal = s.journal) :
    s.StaysFaithful s' := fun hs => h ▸ hs

theorem StaysFaithful.trans (s s' s'' : Session) (h : s.StaysFaithful s')
    (h' : s'.StaysFaithful s'') : s.StaysFaithful s'' := fun hs => h' (h hs)

/-- All include directives in the document are known to be missing. -/
def Settled (s : Session) : Prop :=
  ∃ texts, s.document.directivesRead = .ok texts ∧ ∀ x ∈ texts, s.journal.isMissing x = true

/-- The first include directive in the document that is not known to be
missing. -/
def Awaits (s : Session) (x : String) : Prop :=
  ∃ before after, s.document.directivesRead = .ok (before ++ x :: after) ∧
    (∀ y ∈ before, s.journal.isMissing y = true) ∧ s.journal.isMissing x = false

end Session

namespace Macro
open Text Job Document

/-! ### One step -/

/-- All faults but that of a directive nested too deeply, which only the end
of the passes has. -/
def Shallow (e : Fault) : Prop := ∀ limit x, e ≠ .includeTooDeep limit x

theorem shallow_stale (e : StaleRange) : Shallow (.stale e) := fun _ _ => nofun

/-- A handler reports a directive only if it is not known to be missing. -/
theorem Handler.actsWithin_staysFaithful (h : Handler) :
    h.ActsWithin Session.StaysFaithful Shallow where
  refl _ := id
  trans := .trans
  stale := shallow_stale
  load _ _ _ _ := nofun
  splice _ _ _ _ _ _ _ := Session.staysFaithful_of_journal_eq rfl
  replaceText _ _ _ _ _ _ := Session.staysFaithful_of_journal_eq rfl
  refresh _ := Session.staysFaithful_of_journal_eq rfl
  report _ _ detail hnew hs := hs.report hnew detail
  warn _ _ _ _ hkind hs := hs.warn hkind _ _

/-- All that a pass is made of keeps the journal faithful. -/
theorem keptByHandlers_staysFaithful : KeptByHandlers Session.StaysFaithful Shallow where
  refl _ := id
  trans := .trans
  notify _ _ := Session.staysFaithful_of_journal_eq rfl
  warn _ _ _ _ hkind hs := hs.warn hkind _ _
  stale := shallow_stale
  substitute r t h := h.actsWithin_staysFaithful.keeps_substitute r t

/-! ### The points of a call -/

/-- A call of the inclusion of documents, with all that it is given. -/
structure Inclusion where
  document : Document
  workspace : Workspace
  limit : Nat
  mainText? : Option (List Block) := none

/-- The insertion of the main text, stopped after some visits of its pass. -/
def insertSome (content : List Block) (visits : Nat) : Job Unit := do
  notify (.stage "Inserting main text")
  let _ ← Pass.progress ⟨mainTextPattern, [.mainText (some content)]⟩ visits

/-- The passes that include documents, stopped after some of them and some
visits of the next one, or earlier where nothing is pending. -/
def includeSome (w : Workspace) : (passes visits : Nat) → Job Unit
  | 0, visits => do
    match ← pendingDirective? with
    | none => return
    | some _ => let _ ← (includePass w).progress visits
  | passes + 1, visits => do
    match ← pendingDirective? with
    | none => return
    | some _ =>
      let _ ← (includePass w).run
      includeSome w passes visits

namespace Inclusion

variable (q : Inclusion) (j : Journal)

/-- The session at the start of a call; the journal is as earlier calls left
it. -/
def start : Session := { document := q.document, journal := j }

def job : Job Nat := includeDocuments q.workspace q.limit q.mainText?

/-- What comes before the passes that include documents. -/
def opening : Job Unit := do
  match q.mainText? with
  | none => pure ()
  | some content => insertMainText content
  Job.notify (.stage "Including documents")

/-- The sessions that a call passes through: it visits one occurrence after
the other, in the pass for the main text and in the passes that follow, until
it ends or fails. -/
inductive PassesThrough : Session → Prop
  | start : PassesThrough (q.start j)
  | inserting {content : List Block} (hcontent : q.mainText? = some content) (visits : Nat) :
    PassesThrough ((insertSome content visits).left (q.start j))
  | including {passes : Nat} (hlimit : passes < q.limit) (visits : Nat) :
    PassesThrough ((do
      q.opening
      includeSome q.workspace passes visits : Job Unit).left (q.start j))
  | finish : PassesThrough (q.job.left (q.start j))

end Inclusion

/-- The journal after some calls that share it. It was fresh before the first
of them. -/
def journalAfter (calls : List Inclusion) : Journal :=
  calls.foldl (fun j q => (q.job.left (q.start j)).journal) {}

section Points

variable {rel : Session → Session → Prop} {fault : Fault → Prop}

/-- What is kept with certain faults is kept with any. -/
theorem KeptByHandlers.anyFault (h : KeptByHandlers rel fault) :
    KeptByHandlers rel fun _ => True where
  refl := h.refl
  trans := h.trans
  notify := h.notify
  warn := h.warn
  stale _ := trivial
  substitute r t handler := ⟨fun s => ((h.substitute r t handler).leaves s).mono
    (fun _ _ => id) fun _ _ hs => ⟨hs.1, trivial⟩⟩

theorem KeptByHandlers.insertSome (h : KeptByHandlers rel fault) (content : List Block)
    (visits : Nat) : (insertSome content visits).Keeps rel fault := by
  refine (keeps_notify fun s => h.notify s _).bind h.trans fun _ => ?_
  exact (h.progress _ visits).bind h.trans fun _ => keeps_pure h.refl ()

theorem KeptByHandlers.includeSome (h : KeptByHandlers rel fault) (w : Workspace)
    (passes visits : Nat) : (includeSome w passes visits).Keeps rel fault := by
  induction passes with
  | zero =>
    refine h.pendingDirective?.bind h.trans fun pending? => ?_
    cases pending? with
    | none => exact keeps_pure h.refl ()
    | some pending => exact (h.progress _ visits).bind h.trans fun _ => keeps_pure h.refl ()
  | succ passes ih =>
    refine h.pendingDirective?.bind h.trans fun pending? => ?_
    cases pending? with
    | none => exact keeps_pure h.refl ()
    | some pending => exact (h.run _).bind h.trans fun _ => ih

theorem KeptByHandlers.opening (h : KeptByHandlers rel fault) (q : Inclusion) :
    q.opening.Keeps rel fault := by
  have hnotify : (Job.notify (.stage "Including documents")).Keeps rel fault :=
    keeps_notify fun s => h.notify s _
  unfold Inclusion.opening
  cases q.mainText? with
  | none => exact (keeps_pure h.refl ()).bind h.trans fun _ => hnotify
  | some content => exact (h.insertMainText content).bind h.trans fun _ => hnotify

/-- What all steps keep holds at every point of a call. -/
theorem Inclusion.PassesThrough.keeps {q : Inclusion} {j : Journal} {s : Session}
    (hs : q.PassesThrough j s) (h : KeptByHandlers rel fault) : rel (q.start j) s := by
  have hany := h.anyFault
  cases hs with
  | start => exact h.refl _
  | inserting _ visits => exact (h.insertSome _ visits).left _
  | including _ visits =>
    exact ((h.opening q).bind h.trans fun _ => h.includeSome _ _ visits).left _
  | finish => exact (hany.includeDocuments (fun _ _ => trivial) _ _ _).left _

end Points

theorem isFaithful_journalAfter (calls : List Inclusion) : (journalAfter calls).IsFaithful := by
  have hcalls : ∀ j : Journal, j.IsFaithful →
      (calls.foldl (fun j q => (q.job.left (q.start j)).journal) j).IsFaithful := by
    induction calls with
    | nil => exact fun _ => id
    | cons q calls ih =>
      intro j hj
      exact ih _ (Inclusion.PassesThrough.finish.keeps keptByHandlers_staysFaithful hj)
  exact hcalls _ Journal.isFaithful_empty

/-! ### How a call ends -/

variable {s : Session}

theorem pendingDirective?_leaves (s : Session) :
    pendingDirective?.Leaves s
      (fun pending? s' => s' = s ∧
        match pending? with
        | none => s.Settled
        | some x => s.Awaits x)
      (fun e _ => Shallow e) := by
  refine leaves_bind (leaves_get ?_)
  have hpending : pendingDirectives s.document s.journal =
      s.document.directivesRead.map (·.filter fun x => !s.journal.isMissing x) := rfl
  rw [hpending]
  cases hread : s.document.directivesRead with
  | error e => exact leaves_bind (leaves_throw (shallow_stale e))
  | ok texts =>
    refine leaves_bind (leaves_pure (leaves_pure ⟨rfl, ?_⟩))
    dsimp only
    cases hfilter : texts.filter fun x => !s.journal.isMissing x with
    | nil =>
      refine ⟨texts, hread, fun x hx => ?_⟩
      have hall := List.filter_eq_nil_iff.mp hfilter x hx
      rwa [Bool.not_eq_true', Bool.not_eq_false] at hall
    | cons x later =>
      obtain ⟨before, after, rfl, hbefore, hx, -⟩ := List.filter_eq_cons_iff.mp hfilter
      refine ⟨before, after, hread, fun y hy => ?_, by simpa using hx⟩
      have hknown := hbefore y hy
      rwa [Bool.not_eq_true', Bool.not_eq_false] at hknown

/-- Each pass takes one from the limit, and the passes end where nothing is
pending. -/
theorem includeAll_leaves (w : Workspace) (limit left : Nat) (s : Session) :
    (includeAll w limit left).Leaves s
      (fun n s' => n ≤ left ∧ s'.Settled)
      (fun e s' => ∀ l x, e = .includeTooDeep l x → l = limit ∧ s'.Awaits x) := by
  have hshallow : ∀ (e : Fault) (s' : Session), Shallow e →
      ∀ l x, e = .includeTooDeep l x → l = limit ∧ s'.Awaits x :=
    fun e _ he l x hdeep => absurd hdeep (he l x)
  induction left generalizing s with
  | zero =>
    refine leaves_bind ((pendingDirective?_leaves s).mono (fun pending? s' h => ?_) hshallow)
    obtain ⟨rfl, hpending⟩ := h
    cases pending? with
    | none => exact leaves_pure ⟨Nat.le_refl 0, hpending⟩
    | some x =>
      refine leaves_throw fun l y he => ?_
      obtain ⟨rfl, rfl⟩ := Fault.includeTooDeep.inj he
      exact ⟨rfl, hpending⟩
  | succ left ih =>
    refine leaves_bind ((pendingDirective?_leaves s).mono (fun pending? s' h => ?_) hshallow)
    obtain ⟨rfl, hpending⟩ := h
    cases pending? with
    | none => exact leaves_pure ⟨Nat.zero_le _, hpending⟩
    | some x =>
      have hrun := (keptByHandlers_staysFaithful.run (includePass w)).leaves s'
      refine leaves_bind (hrun.mono (fun _ s₁ _ => ?_) fun e s₁ he => hshallow e s₁ he.2)
      refine leaves_bind ((ih s₁).mono (fun n s₂ hn => ?_) fun _ _ => id)
      exact leaves_pure ⟨Nat.succ_le_succ hn.1, hn.2⟩

namespace Inclusion

theorem job_leaves (q : Inclusion) (s : Session) :
    q.job.Leaves s
      (fun n s' => n ≤ q.limit ∧ s'.Settled)
      (fun e s' => ∀ l x, e = .includeTooDeep l x → l = q.limit ∧ s'.Awaits x) := by
  have hopening := (keptByHandlers_staysFaithful.opening q).leaves s
  have hjob : q.job = (do
      q.opening
      includeAll q.workspace q.limit q.limit) := by
    unfold job includeDocuments opening
    cases q.mainText? with
    | none => rfl
    | some content => exact (bind_assoc _ _ _).symm
  rw [hjob]
  exact leaves_bind (hopening.mono (fun _ s' _ => includeAll_leaves _ _ _ s')
    fun e _ he l x hdeep => absurd hdeep (he.2 l x))

/-- At every point of a call on a document with ids of its own, what the
document gives for its directives are the matches of the pattern in it. -/
theorem PassesThrough.directivesRead_eq {q : Inclusion} {j : Journal} (hs : q.PassesThrough j s)
    (hd : q.document.Numbered) :
    s.document.directivesRead = .ok (directivesOf s.document.blocks) := by
  have hadvances := hs.keeps keptByHandlers_advances
  exact Macro.directivesRead_eq ((continues_of_steps hadvances.steps).numbered hd)

end Inclusion

/-- **Each missing directive is reported once.** Whatever calls came before and
wherever they stopped, at every point of a call the directives reported are
those known to be missing, each of them once. A call that ends has made no more
passes than the limit allows and leaves only directives known to be missing,
and one that stops for its limit names the first directive that is not. -/
theorem missing_reported_once (calls : List Inclusion) (q : Inclusion) :
    (∀ s, q.PassesThrough (journalAfter calls) s →
      s.journal.IsFaithful ∧
      (q.document.Numbered →
        s.document.directivesRead = .ok (directivesOf s.document.blocks))) ∧
    q.job.Leaves (q.start (journalAfter calls))
      (fun n s' => n ≤ q.limit ∧ s'.Settled)
      (fun e s' => ∀ l x, e = .includeTooDeep l x → l = q.limit ∧ s'.Awaits x) := by
  refine ⟨fun s hs => ⟨?_, hs.directivesRead_eq⟩, q.job_leaves _⟩
  exact hs.keeps keptByHandlers_staysFaithful (isFaithful_journalAfter calls)

/-- A file that includes another one. -/
def chained : Workspace where
  files := {
    entries := [
      (["a.txt"], .file (.text "one %INCLUDE(b.txt)%")),
      (["b.txt"], .file (.text "two"))] }
  base := "/"

/-- A paragraph with a directive at the place where the file has its own. -/
def samePlace : Inclusion where
  document := .overtaken "new %INCLUDE(c.txt)% %INCLUDE(a.txt)%"
  workspace := chained
  limit := 4

/-- That the ids are distinct is not enough: the directive of the file is looked
for in the piece before it, where one is read that is known to be missing. So
the call ends with a directive that is not. -/
theorem leaves_unknown_overtaken :
    samePlace.document.ids.Nodup ∧
    samePlace.job.Leaves (samePlace.start (journalAfter []))
      (fun n s' => n = 1 ∧
        directivesOf s'.document.blocks = ["%INCLUDE(c.txt)%", "%INCLUDE(b.txt)%"] ∧
        s'.journal.isMissing "%INCLUDE(b.txt)%" = false)
      (fun _ _ => False) :=
  ⟨nodup_ids_overtaken _, by decide +kernel⟩

/-- A paragraph that names a missing file twice. -/
def missingTwice : Inclusion where
  document := .ofBlocks "Report" [.paragraph (.plain "%INCLUDE(c.txt)% %INCLUDE(c.txt)%")]
  workspace := chained
  limit := 4

/-- A cell that names the missing file again, before a file that is there. -/
def cellWithBoth : Inclusion where
  document := .ofBlocks "Letter"
    [.table { headers := [⟨"%INCLUDE(c.txt)% %INCLUDE(a.txt)%", {}⟩], rows := [] }]
  workspace := chained
  limit := 1

/-- The second call does not report the missing file again, and stops at a
directive that was put into the cell. -/
theorem reported_before_cell :
    cellWithBoth.document.Numbered ∧
    (journalAfter [missingTwice]).reported = ["%INCLUDE(c.txt)%"] ∧
    ∃ s, cellWithBoth.PassesThrough (journalAfter [missingTwice]) s ∧
      cellWithBoth.job.Leaves (cellWithBoth.start (journalAfter [missingTwice]))
        (fun _ _ => False) (fun e s' => e = .includeTooDeep 1 "%INCLUDE(b.txt)%" ∧ s' = s) ∧
      s.journal.IsFaithful ∧ s.journal.reported = ["%INCLUDE(c.txt)%"] ∧
      s.document.directivesRead = .ok ["%INCLUDE(c.txt)%", "%INCLUDE(b.txt)%"] ∧
      s.Awaits "%INCLUDE(b.txt)%" := by
  have hd : cellWithBoth.document.Numbered := numbered_ofBlocks "Letter"
    [.table { headers := [⟨"%INCLUDE(c.txt)% %INCLUDE(a.txt)%", {}⟩], rows := [] }]
  have hreported : (journalAfter [missingTwice]).reported = ["%INCLUDE(c.txt)%"] := by
    decide +kernel
  have hruns : cellWithBoth.job.Leaves (cellWithBoth.start (journalAfter [missingTwice]))
      (fun _ _ => False) (fun e s => e = .includeTooDeep 1 "%INCLUDE(b.txt)%" ∧
        s.journal.reported = ["%INCLUDE(c.txt)%"] ∧
        directivesOf s.document.blocks = ["%INCLUDE(c.txt)%", "%INCLUDE(b.txt)%"]) := by
    decide +kernel
  obtain ⟨hpoints, hends⟩ := missing_reported_once [missingTwice] cellWithBoth
  have hfinish : cellWithBoth.PassesThrough (journalAfter [missingTwice])
      (cellWithBoth.job.left (cellWithBoth.start (journalAfter [missingTwice]))) := .finish
  unfold Job.Leaves at hruns hends ⊢
  unfold left at hfinish
  cases hrun : cellWithBoth.job.run (cellWithBoth.start (journalAfter [missingTwice])) with
  | ok n s =>
    rw [hrun] at hruns
    exact hruns.elim
  | error e s =>
    rw [hrun] at hruns hends hfinish
    obtain ⟨rfl, hsame, hdirectives⟩ := hruns
    obtain ⟨hfaithful, hread⟩ := hpoints s hfinish
    exact ⟨hd, hreported, s, hfinish, ⟨rfl, rfl⟩, hfaithful, hsame, hdirectives ▸ hread hd,
      (hends 1 _ rfl).2⟩

end Macro
end Compositor
