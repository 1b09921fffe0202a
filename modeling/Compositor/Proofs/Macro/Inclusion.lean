/-
# Inclusion, all passes

After some passes the document holds the directives of the level reached, and
those of the levels above whose files are missing; these are known. This is
the invariant of inclusion, `Stage`. Something is pending as long as the
nesting goes deeper, so inclusion ends after as many passes as documents are
nested, or stops at the limit. Since to inline what is there after one pass
is to inline from the beginning, the document at the end is the one at the
start with everything inlined. The document at the start has to be numbered,
as every document made from blocks is.

Key definition: `Stage`.
Key theorems: `Stage.next`, `includeAll_ends`, `includeDocuments_nesting`,
`includeDocuments_inlines`.
-/
import Compositor.Proofs.Macro.IncludePass
import Compositor.Proofs.Macro.Nesting

namespace Compositor.Macro
open Job Document

/-- The session after `j` passes that started with the given blocks: the
directives are those at the next level and the missing ones of the levels
before, which are known to be missing. -/
structure Stage (w : Workspace) (bs : List Block) (j : ℕ) (s : Session) : Prop where
  numbered : s.document.Numbered
  directives : ∀ x, x ∈ directivesOf s.document.blocks ↔
    w.AtLevel bs (j + 1) x ∨ w.brought? x = none ∧ ∃ k ≤ j, w.AtLevel bs k x
  missing : ∀ x, s.journal.isMissing x = true ↔
    w.brought? x = none ∧ ∃ k ≤ j, w.AtLevel bs k x
  tables : ∀ t, .table t ∈ s.document.blocks → (Block.table t).directives = []

section

variable {w : Workspace} {bs : List Block} {j : ℕ} {s : Session}

theorem stage_zero (hd : s.document.Numbered) (hclear : w.ClearCells s.document.blocks)
    (hfresh : s.journal.missing = []) : Stage w s.document.blocks 0 s := by
  have hnone : ∀ x, ¬ ∃ k ≤ 0, w.AtLevel s.document.blocks k x := by
    rintro x ⟨k, hk, hx⟩
    exact absurd hx.pos (by omega)
  refine ⟨hd, fun x => ?_, fun x => ?_, hclear.here⟩
  · rw [Workspace.atLevel_one_iff, or_iff_left fun h => hnone x h.2]
  · rw [Journal.isMissing, hfresh]
    simp only [List.not_mem_nil, decide_false, Bool.false_eq_true, false_iff, not_and]
    exact fun _ => hnone x

namespace Stage

theorem sound (h : Stage w bs j s) : s.journal.Sound w := fun x hx => ((h.missing x).mp hx).1

theorem sorts (h : Stage w bs j s) :
    w.Sorts (directivesOf s.document.blocks) (s.document.blocks.flatMap w.segments) :=
  sorts_blocks h.tables

/-- A directive not known to be missing is pending. -/
theorem pendingAt (h : Stage w bs j s) {x : String} (hx : x ∈ directivesOf s.document.blocks)
    (hunknown : s.journal.isMissing x = false) : w.PendingAt bs (j + 1) := by
  have hknown : ¬ (w.brought? x = none ∧ ∃ k ≤ j, w.AtLevel bs k x) := by
    rw [← h.missing x, hunknown]
    exact Bool.false_ne_true
  rcases (h.directives x).mp hx with hx | hx
  · exact ⟨x, hx, fun hnone i hi hlevel => hknown ⟨hnone, i, by omega, hlevel⟩⟩
  · exact absurd hx hknown

theorem not_pendingAt (h : Stage w bs j s)
    (hknown : ∀ x ∈ directivesOf s.document.blocks, s.journal.isMissing x = true) :
    ¬ w.PendingAt bs (j + 1) := by
  rintro ⟨x, hx, hfirst⟩
  obtain ⟨hnone, k, hk, hlevel⟩ := (h.missing x).mp (hknown x ((h.directives x).mpr (.inl hx)))
  exact hfirst hnone k (by omega) hlevel

theorem atLevel (h : Stage w bs j s) {x : String} {d : Document}
    (hx : x ∈ directivesOf s.document.blocks) (hd : w.brought? x = some d) :
    w.AtLevel bs (j + 1) x := by
  rcases (h.directives x).mp hx with hx | ⟨hnone, -⟩
  · exact hx
  · rw [hd] at hnone
    cases hnone

/-- The missing directives that are known after one more pass. -/
theorem known_iff (h : Stage w bs j s) (x : String) :
    x ∈ directivesOf s.document.blocks ∧ w.brought? x = none ↔
      w.brought? x = none ∧ ∃ k ≤ j + 1, w.AtLevel bs k x := by
  rw [h.directives x]
  constructor
  · rintro ⟨hx | ⟨-, k, hk, hx⟩, hnone⟩
    · exact ⟨hnone, j + 1, Nat.le_refl _, hx⟩
    · exact ⟨hnone, k, by omega, hx⟩
  · rintro ⟨hnone, k, hk, hx⟩
    rcases Nat.lt_or_ge j k with hlt | hge
    · obtain rfl : k = j + 1 := by omega
      exact ⟨.inl hx, hnone⟩
    · exact ⟨.inr ⟨hnone, k, hge, hx⟩, hnone⟩

/-- One pass goes one level down. -/
theorem next (hclear : w.ClearCells bs) (h : Stage w bs j s) {s' : Session}
    (hd : s'.document.Numbered)
    (hlearns : s.journal.Learns w (directivesOf s.document.blocks) s'.journal)
    (hopened : List.Forall₂ Part.Matches
      ((s.document.blocks.flatMap w.segments).flatMap Segment.opened) s'.document.blocks) :
    Stage w bs (j + 1) s' := by
  refine ⟨hd, fun x => ?_, fun x => ?_, fun t ht => ?_⟩
  · rw [mem_directivesOf_opened h.sorts hopened, h.known_iff x,
      Workspace.atLevel_succ_iff (Nat.succ_pos j)]
    constructor
    · rintro (hx | ⟨z, hz, d, hd, hx⟩)
      · exact .inr hx
      · exact .inl ⟨z, d, h.atLevel hz hd, hd, hx⟩
    · rintro (⟨z, d, hz, hd, hx⟩ | hx)
      · exact .inr ⟨z, (h.directives z).mpr (.inl hz), d, hd, hx⟩
      · exact .inl hx
  · rw [hlearns x, h.known_iff x, h.missing x]
    constructor
    · rintro (⟨hnone, k, hk, hx⟩ | hx)
      · exact ⟨hnone, k, by omega, hx⟩
      · exact hx
    · exact .inr
  · obtain ⟨b, hb, hmem⟩ := exists_table_of_opened hopened ht
    rw [← directives_anonymous, ← hb, directives_anonymous]
    obtain ⟨t', rfl⟩ : ∃ t', b = .table t' := by
      cases b with
      | table t' => exact ⟨t', rfl⟩
      | paragraph | object | contents | pageBreak => cases hb
    rcases hmem with hmem | ⟨d, hfile, hmem⟩
    · exact h.tables t' hmem
    · obtain ⟨x, hx, hd⟩ := (h.sorts.files d).mp hfile
      exact hclear.reached d ⟨j + 1, x, h.atLevel hx hd, hd⟩ t' hmem

end Stage

/-! ### All passes -/

/-- If nothing is to be brought in, the blocks are inlined already. -/
theorem inlines_of_settled {bs : List Block}
    (h : ∀ x ∈ directivesOf bs, w.brought? x = none) :
    ∃ parts, w.Inlines (bs.flatMap w.segments) parts ∧ List.Forall₂ Part.Matches parts bs := by
  induction bs with
  | nil => exact ⟨[], .nil, .nil⟩
  | cons b bs ih =>
    obtain ⟨parts, hparts, hmatches⟩ :=
      ih fun x hx => h x (List.mem_append_right _ hx)
    rw [List.flatMap_cons, segments_of_settled fun x hx => h x (List.mem_append_left _ hx)]
    exact ⟨_, .part hparts, .cons rfl hmatches⟩

theorem clearCells_of_brought? (hclear : w.ClearCells bs) {x : String} {d : Document}
    (hx : x ∈ directivesOf bs) (hd : w.brought? x = some d) : w.ClearCells d.blocks where
  here := hclear.reached d ⟨1, x, .top hx, hd⟩
  reached := by
    rintro e ⟨k, y, hy, he⟩
    exact hclear.reached e ⟨1 + k, y, (Workspace.AtLevel.top hx).trans hd hy, he⟩

theorem settled_of_mem_inlined {segs : List Segment} {parts : List Part}
    (h : w.Inlines segs parts) (hkept : ∀ x, .part x ∈ segs → x.Settled w)
    (hfiles : ∀ d, .file d ∈ segs → w.ClearCells d.blocks) : ∀ x ∈ parts, x.Settled w := by
  induction h with
  | nil => exact fun x hx => absurd hx List.not_mem_nil
  | part _ ih =>
    intro x hx
    rcases List.mem_cons.mp hx with rfl | hx
    · exact hkept x List.mem_cons_self
    · exact ih (fun x hx => hkept x (List.mem_cons_of_mem _ hx))
        (fun d hd => hfiles d (List.mem_cons_of_mem _ hd)) x hx
  | file _ _ ihinner ih =>
    intro x hx
    rcases List.mem_append.mp hx with hx | hx
    · have hclear := hfiles _ List.mem_cons_self
      have hsorts := sorts_blocks (w := w) hclear.here
      refine ihinner (fun x hx => hsorts.settled hx) (fun e he => ?_) x hx
      obtain ⟨y, hy, he⟩ := (hsorts.files e).mp he
      exact clearCells_of_brought? hclear hy he
    · exact ih (fun x hx => hkept x (List.mem_cons_of_mem _ hx))
        (fun d hd => hfiles d (List.mem_cons_of_mem _ hd)) x hx

/-- What is inlined holds no directive whose file exists. -/
theorem inlines_settled (hclear : w.ClearCells bs) {parts : List Part}
    (h : w.Inlines (bs.flatMap w.segments) parts) : ∀ x ∈ parts, x.Settled w := by
  have hsorts := sorts_blocks (w := w) hclear.here
  refine settled_of_mem_inlined h (fun x hx => hsorts.settled hx) fun d hd => ?_
  obtain ⟨y, hy, hd⟩ := (hsorts.files d).mp hd
  exact clearCells_of_brought? hclear hy hd

/-- From any stage on, inclusion ends after the passes that are still to be
made, with everything inlined, or the limit is too low. -/
theorem includeAll_ends (hw : w.Loads) (hclear : w.ClearCells bs) (limit left : ℕ)
    (h : Stage w bs j s) (hj : j = 0 ∨ w.PendingAt bs j) :
    (includeAll w limit left).Ends s
      (fun n s' => n ≤ left ∧ w.nesting bs = (j + n : ℕ) ∧
        ∃ parts, w.Inlines (s.document.blocks.flatMap w.segments) parts ∧
          List.Forall₂ Part.Matches parts s'.document.blocks)
      (fun e => ((j + left : ℕ) : ℕ∞) < w.nesting bs ∧ ∃ x, e = .includeTooDeep limit x) := by
  induction left generalizing j s with
  | zero =>
    refine ends_bind ((pendingDirective?_ends h.numbered).mono (fun pending? s' hpending => ?_)
      fun _ hf => hf.elim)
    obtain ⟨rfl, hpending⟩ := hpending
    cases pending? with
    | none =>
      refine ends_pure ⟨Nat.le_refl 0, Workspace.nesting_eq hj (h.not_pendingAt hpending), ?_⟩
      exact inlines_of_settled fun x hx => h.sound x (hpending x hx)
    | some x =>
      refine ends_throw ⟨?_, x, rfl⟩
      refine lt_of_lt_of_le ?_ (h.pendingAt hpending.1 hpending.2).le_nesting
      exact Nat.cast_lt.mpr (Nat.lt_succ_self j)
  | succ left ih =>
    refine ends_bind ((pendingDirective?_ends h.numbered).mono (fun pending? s' hpending => ?_)
      fun _ hf => hf.elim)
    obtain ⟨rfl, hpending⟩ := hpending
    cases pending? with
    | none =>
      refine ends_pure ⟨Nat.zero_le _, Workspace.nesting_eq hj (h.not_pendingAt hpending), ?_⟩
      exact inlines_of_settled fun x hx => h.sound x (hpending x hx)
    | some x =>
      have hdeeper := h.pendingAt hpending.1 hpending.2
      refine ends_bind ((includePass_ends hw h.numbered h.sound h.tables).mono
        (fun _ s₁ hpass => ?_) fun _ hf => hf.elim)
      obtain ⟨hnumbered, hlearns, hopened⟩ := hpass
      have hnext := h.next hclear hnumbered hlearns hopened
      refine ends_bind ((ih hnext (.inr hdeeper)).mono (fun n s₂ hrest => ?_) fun e hdeep => ?_)
      · obtain ⟨hn, hnesting, parts, hparts, hmatches⟩ := hrest
        refine ends_pure ⟨by omega, ?_, ?_⟩
        · rw [hnesting, Nat.add_right_comm, Nat.add_assoc]
        · exact Workspace.Inlines.of_opened (fun x hx => h.sorts.settled hx) hopened hparts hmatches
      · rw [Nat.add_right_comm] at hdeep
        exact hdeep

end

/-! ### From the start -/

section

variable {w : Workspace} {s : Session}

theorem includeDocuments_ends (hw : w.Loads) (hd : s.document.Numbered)
    (hclear : w.ClearCells s.document.blocks) (hfresh : s.journal.missing = []) (limit : ℕ) :
    (includeDocuments w limit none).Ends s
      (fun n s' => n ≤ limit ∧ w.nesting s.document.blocks = n ∧
        ∃ parts, w.Inlines (s.document.blocks.flatMap w.segments) parts ∧
          List.Forall₂ Part.Matches parts s'.document.blocks)
      (fun e => (limit : ℕ∞) < w.nesting s.document.blocks ∧ ∃ x, e = .includeTooDeep limit x) := by
  refine ends_bind (ends_notify ?_)
  have hstage := stage_zero
    (s := { s with notices := s.notices ++ [.stage "Including documents"] }) hd hclear hfresh
  refine (includeAll_ends hw hclear limit limit hstage (.inl rfl)).mono (fun n s' h => ?_)
    fun e h => ?_
  · rw [Nat.zero_add] at h
    exact h
  · rw [Nat.zero_add] at h
    exact h

/-- **Inclusion succeeds if documents are nested within the limit.** It counts
as many passes as the nesting goes deep. Otherwise it stops with the limit;
in particular it does for any limit if a document includes itself. -/
theorem includeDocuments_nesting (hw : w.Loads) (hd : s.document.Numbered)
    (hclear : w.ClearCells s.document.blocks) (hfresh : s.journal.missing = []) (limit : ℕ) :
    ((∃ n s', (includeDocuments w limit none).run s = .ok n s') ↔
      w.nesting s.document.blocks ≤ limit) ∧
    (∀ n s', (includeDocuments w limit none).run s = .ok n s' →
      w.nesting s.document.blocks = n) ∧
    (∀ e s', (includeDocuments w limit none).run s = .error e s' →
      ∃ x, e = .includeTooDeep limit x) ∧
    (w.nesting s.document.blocks = ⊤ ↔ w.IncludesItself s.document.blocks) ∧
    (w.IncludesItself s.document.blocks →
      ∃ x s', (includeDocuments w limit none).run s = .error (.includeTooDeep limit x) s') := by
  have hends := includeDocuments_ends hw hd hclear hfresh limit
  unfold Ends at hends
  cases hrun : (includeDocuments w limit none).run s with
  | ok n s' =>
    rw [hrun] at hends
    obtain ⟨hn, hnesting, -⟩ := hends
    refine ⟨⟨fun _ => ?_, fun _ => ⟨n, s', rfl⟩⟩, ?_, ?_, Workspace.nesting_eq_top_iff, ?_⟩
    · rw [hnesting]
      exact Nat.cast_le.mpr hn
    · intro n' s'' he
      cases he
      exact hnesting
    · intro e s'' he
      cases he
    · intro hitself
      rw [Workspace.nesting_eq_top hitself] at hnesting
      exact absurd hnesting.symm (ENat.natCast_ne_top n)
  | error e s' =>
    rw [hrun] at hends
    obtain ⟨hdeep, x, rfl⟩ := hends
    refine ⟨⟨?_, fun hle => absurd hle (not_le_of_gt hdeep)⟩, ?_, ?_,
      Workspace.nesting_eq_top_iff, fun _ => ⟨x, s', rfl⟩⟩
    · rintro ⟨n, s'', he⟩
      cases he
    · intro n s'' he
      cases he
    · intro e s'' he
      cases he
      exact ⟨x, rfl⟩

/-- A file that includes another one and names a third, which is missing. -/
def twoLevels : Workspace where
  files := {
    entries := [
      (["a.txt"], .file (.text "one %INCLUDE(b.txt)% two %INCLUDE(c.txt)%")),
      (["b.txt"], .file (.text "three"))] }
  base := "/"

/-- A document that includes the file. -/
def twoLevelsStart : Session :=
  { document := .ofBlocks "Report" [.paragraph (.plain "zero %INCLUDE(a.txt)% four")] }

theorem loads_twoLevels : twoLevels.Loads := by
  have hall : twoLevels.files.loadsAll = true := by decide +kernel
  exact fun path hfile => FileSystem.exists_loadDocument hall hfile

theorem numbered_twoLevelsStart : twoLevelsStart.document.Numbered :=
  numbered_ofBlocks "Report" [.paragraph (.plain "zero %INCLUDE(a.txt)% four")]

theorem clearCells_twoLevels : twoLevels.ClearCells twoLevelsStart.document.blocks :=
  Workspace.clearCells_of_no_tables (by decide +kernel)

/-- Both files are included in two passes, and the directive whose file is
missing stays. -/
theorem includes_twoLevels :
    (includeDocuments twoLevels 2 none).Ends twoLevelsStart
      (fun n s' => n = 2 ∧ s'.document.blocks.map Block.plainText =
        ["zero ", "one ", "three", " two %INCLUDE(c.txt)%", " four"])
      (fun _ => False) := by decide +kernel

theorem nesting_twoLevelsStart : twoLevels.nesting twoLevelsStart.document.blocks = 2 := by
  obtain ⟨n, s', hrun, rfl, -⟩ := includes_twoLevels.exists_ok
  have hends :=
    includeDocuments_ends loads_twoLevels numbered_twoLevelsStart clearCells_twoLevels rfl 2
  rw [Ends, hrun] at hends
  exact hends.2.1

/-- Two passes are needed, and with a limit of one inclusion fails. -/
theorem nesting_twoLevels :
    twoLevels.Loads ∧ twoLevelsStart.document.Numbered ∧
    twoLevels.ClearCells twoLevelsStart.document.blocks ∧ twoLevelsStart.journal.missing = [] ∧
    twoLevels.nesting twoLevelsStart.document.blocks = 2 ∧
    ¬ ∃ n s', (includeDocuments twoLevels 1 none).run twoLevelsStart = .ok n s' := by
  have hd := numbered_twoLevelsStart
  have hnesting := nesting_twoLevelsStart
  refine ⟨loads_twoLevels, hd, clearCells_twoLevels, rfl, hnesting, ?_⟩
  rw [(includeDocuments_nesting loads_twoLevels hd clearCells_twoLevels rfl 1).1, hnesting]
  decide

/-- The same document with its id still to be given out. -/
def overtakenStart : Session := { document := .overtaken "zero %INCLUDE(a.txt)% four" }

/-- That the ids are distinct is not enough. The file gets the id of the piece
before it, in which the second pass then looks for the directives of the file;
so two passes do not do for what is nested in two levels. -/
theorem nesting_overtaken :
    twoLevels.Loads ∧ overtakenStart.document.ids.Nodup ∧
    twoLevels.ClearCells overtakenStart.document.blocks ∧ overtakenStart.journal.missing = [] ∧
    twoLevels.nesting overtakenStart.document.blocks = 2 ∧
    (includeDocuments twoLevels 2 none).Ends overtakenStart (fun _ _ => False)
      (fun e => e = .stale ⟨⟨1, none, 4, 20⟩⟩) := by
  refine ⟨loads_twoLevels, nodup_ids_overtaken _, clearCells_twoLevels, rfl,
    nesting_twoLevelsStart, ?_⟩
  decide +kernel

/-- **Inclusion inlines the documents.** What it makes of a document is, but
for ids and object names, the document with everything inlined file by file;
and there is only one way to inline. -/
theorem includeDocuments_inlines (hw : w.Loads) (hd : s.document.Numbered)
    (hclear : w.ClearCells s.document.blocks) (hfresh : s.journal.missing = []) {limit n : ℕ}
    {s' : Session} (hrun : (includeDocuments w limit none).run s = .ok n s') :
    ∃ parts, w.Inlines (s.document.blocks.flatMap w.segments) parts ∧
      List.Forall₂ Part.Matches parts s'.document.blocks ∧
      ∀ parts', w.Inlines (s.document.blocks.flatMap w.segments) parts' → parts' = parts := by
  have hends := includeDocuments_ends hw hd hclear hfresh limit
  rw [Ends, hrun] at hends
  obtain ⟨-, -, parts, hparts, hmatches⟩ := hends
  exact ⟨parts, hparts, hmatches, fun parts' hparts' => hparts'.unique hparts⟩

/-- Both files are inlined, and the directive whose file is missing stays. -/
theorem inlines_twoLevels :
    ∃ s', (includeDocuments twoLevels 2 none).run twoLevelsStart = .ok 2 s' ∧
      s'.document.blocks.map Block.plainText =
        ["zero ", "one ", "three", " two %INCLUDE(c.txt)%", " four"] ∧
      ∃ parts, twoLevels.Inlines (twoLevelsStart.document.blocks.flatMap twoLevels.segments) parts ∧
        List.Forall₂ Part.Matches parts s'.document.blocks ∧
        ∀ parts', twoLevels.Inlines
          (twoLevelsStart.document.blocks.flatMap twoLevels.segments) parts' → parts' = parts := by
  obtain ⟨n, s', hrun, rfl, htexts⟩ := includes_twoLevels.exists_ok
  exact ⟨s', hrun, htexts,
    includeDocuments_inlines loads_twoLevels numbered_twoLevelsStart clearCells_twoLevels rfl hrun⟩

/-- A document with directives at the places where the file has its own. -/
def sharedPlaces : Document :=
  .overtaken "new %INCLUDE(c.txt)% and %INCLUDE(c.txt)% %INCLUDE(a.txt)%"

/-- That the ids are distinct is not enough. The directives of the file are
looked for in the piece before it, where others are read that are known to be
missing; so inclusion ends with a directive whose file exists. -/
theorem inlines_overtaken :
    twoLevels.Loads ∧ sharedPlaces.ids.Nodup ∧ twoLevels.ClearCells sharedPlaces.blocks ∧
    ∃ s', (includeDocuments twoLevels 1 none).run { document := sharedPlaces } = .ok 1 s' ∧
      s'.document.blocks.map Block.plainText =
        ["new %INCLUDE(c.txt)% and %INCLUDE(c.txt)% ",
          "one %INCLUDE(b.txt)% two %INCLUDE(c.txt)%"] ∧
      ¬ ∃ parts, twoLevels.Inlines (sharedPlaces.blocks.flatMap twoLevels.segments) parts ∧
        List.Forall₂ Part.Matches parts s'.document.blocks := by
  have hclear : twoLevels.ClearCells sharedPlaces.blocks :=
    Workspace.clearCells_of_no_tables (by decide +kernel)
  have hresult : (includeDocuments twoLevels 1 none).Ends { document := sharedPlaces }
      (fun n s' => n = 1 ∧ s'.document.blocks.map Block.plainText =
          ["new %INCLUDE(c.txt)% and %INCLUDE(c.txt)% ",
            "one %INCLUDE(b.txt)% two %INCLUDE(c.txt)%"] ∧
        "%INCLUDE(b.txt)%" ∈ directivesOf s'.document.blocks)
      (fun _ => False) := by decide +kernel
  obtain ⟨n, s', hrun, rfl, htexts, hleft⟩ := hresult.exists_ok
  refine ⟨loads_twoLevels, nodup_ids_overtaken _, hclear, s', hrun, htexts, ?_⟩
  rintro ⟨parts, hparts, hmatches⟩
  rw [directivesOf_of_matches hmatches] at hleft
  obtain ⟨x, hx, hmem⟩ := List.mem_flatMap.mp hleft
  have hfile : twoLevels.files.isFile (twoLevels.pathOf "%INCLUDE(b.txt)%") = true := by
    decide +kernel
  obtain ⟨d, hd⟩ := loads_twoLevels _ hfile
  have hsettled := inlines_settled hclear hparts x hx _ hmem
  rw [Workspace.brought?_of_isFile hfile hd] at hsettled
  cases hsettled

end

end Compositor.Macro
