/-
# The main text goes in once

The pass for the main text has the content for one place. The first occurrence
takes it, and from then on the handler has nothing left but a warning. So the
edits of this pass are one edit, and the ranges of all other occurrences,
followed through it, read what was found there.

Key definitions: `Document.PutFor`, `TookMainText`.
Key theorems: `processAll_further_ends`, `processAll_first_ends`,
`exists_rebase_of_edited`, `inserts_main_text_once`.
-/
import Compositor.Macro.Include
import Compositor.Proofs.Document.Splicing
import Compositor.Proofs.Macro.Walk

namespace Compositor
open Text

/-- Blocks were put for a range of the document: as blocks in a paragraph, as
plain text in a cell. -/
def Document.PutFor (d : Document) (r : TextRange) (bs : List Block) (d' : Document) (e : Edit) :
    Prop :=
  match r.cell with
  | none => ∃ put : d.Splicing r bs, d' = put.result ∧ e = put.edit
  | some place => ∃ put : d.Refilling r place (inlineText bs), d' = put.result ∧ e = put.edit

theorem Document.Numbered.exists_putFor {d : Document} (h : d.Numbered) {r : TextRange}
    {x : List Char} (hr : d.Reads r x) (bs : List Block) :
    ∃ d' e, d.splice r bs = .ok (d', e) ∧ e.range = r ∧ d.Edited d' e ∧ d.PutFor r bs d' e := by
  obtain ⟨d', e, hsplice, hrange, hedited⟩ := h.edited_splice hr bs
  refine ⟨d', e, hsplice, hrange, hedited, ?_⟩
  unfold PutFor
  split
  · rename_i hcell
    obtain ⟨put, hput⟩ := h.exists_splicing hcell hr bs
    obtain ⟨hresult, hedit⟩ := Prod.mk.inj (Except.ok.inj (hsplice.symm.trans hput))
    exact ⟨put, hresult, hedit⟩
  · rename_i place hcell
    obtain ⟨put, hput⟩ := exists_refilling h.distinct hcell hr (inlineText bs)
    have hrefill := (d.splice_in_cell hcell bs).trans hput
    obtain ⟨hresult, hedit⟩ := Prod.mk.inj (Except.ok.inj (hsplice.symm.trans hrefill))
    exact ⟨put, hresult, hedit⟩

namespace Macro
open Job

/-- What is said at an occurrence after the first one. -/
def extraMainText : Diagnostic :=
  ⟨.extraMainText, mainTextToken.raw, "main text is already inserted; occurrence left as is"⟩

/-- What is said if there is no occurrence. -/
def missingMainText : Diagnostic :=
  ⟨.missingMainText, mainTextToken.raw, "the template has no place for the main text"⟩

/-! ### The token -/

theorem parse?_mainTextToken :
    Token.parse? (String.ofList mainTextToken.chars) = some mainTextToken := by
  decide +kernel

theorem judge_mainTextToken (content? : Option (List Block)) :
    (Handler.mainText content?).judge mainTextToken = .accept := rfl

theorem eq_of_mem_found_mainText {d : Document} {o : TextRange × List Char}
    (h : o ∈ d.found mainTextPattern) : o.2 = mainTextToken.chars := by
  obtain ⟨s, hs⟩ := exists_of_mem_found h
  exact eq_of_mem_cut_literal (by decide) hs

/-! ### One occurrence -/

section

variable {s : Session} {r : TextRange}

/-- The first occurrence takes the content. -/
theorem processOne_first_ends (hr : s.document.Reads r mainTextToken.chars) {content : List Block}
    {d' : Document} {e : Edit} (hsplice : s.document.splice r content = .ok (d', e)) :
    (processOne [.mainText (some content)] r).Ends s
      (fun done s' => done = (some e, [.mainText none]) ∧ s'.document = d' ∧
        s'.journal = s.journal) fun _ => False := by
  refine ends_bind (ends_rangeText hr ?_)
  rw [parse?_mainTextToken]
  refine ends_bind ?_
  rw [dispatch, judge_mainTextToken]
  refine ends_bind (ends_bind (ends_edit (f := (·.splice r content)) hsplice ?_))
  exact ends_pure (ends_pure (ends_pure ⟨rfl, rfl, rfl⟩))

/-- A further occurrence stays and is reported. -/
theorem processOne_further_ends (hr : s.document.Reads r mainTextToken.chars) :
    (processOne [.mainText none] r).Ends s
      (fun done s' => done = (none, [.mainText none]) ∧ s'.document = s.document ∧
        s'.journal = s.journal.note [extraMainText]) fun _ => False := by
  refine ends_bind (ends_rangeText hr ?_)
  rw [parse?_mainTextToken]
  refine ends_bind ?_
  rw [dispatch, judge_mainTextToken]
  refine ends_bind (ends_bind (ends_warn ?_))
  exact ends_pure (ends_pure (ends_pure ⟨rfl, rfl, rfl⟩))

end

/-! ### All occurrences -/

/-- With the content gone, every occurrence that is left stays and is reported. -/
theorem processAll_further_ends {s : Session} {edits : List Edit} {ranges : List TextRange}
    (h : ∀ r ∈ ranges, ∃ r', r.follow edits = some r' ∧ s.document.Reads r' mainTextToken.chars)
    (total current : Nat) (report : PassReport) :
    (processAll total current edits [.mainText none] report ranges).Ends s
      (fun report' s' => report'.scanned = report.scanned ∧ s'.document = s.document ∧
        s'.journal = s.journal.note (List.replicate ranges.length extraMainText))
      fun _ => False := by
  induction ranges generalizing s current report with
  | nil => exact ends_pure ⟨rfl, rfl, s.journal.note_nil.symm⟩
  | cons r rs ih =>
    obtain ⟨r', hfollow, hreads⟩ := h r List.mem_cons_self
    rw [processAll, hfollow]
    refine ends_bind (ends_notify (ends_bind ?_))
    have hone := processOne_further_ends
      (s := { s with notices := s.notices ++ [.count current total] }) hreads
    refine hone.mono (fun done s₁ hdone => ?_) fun _ => id
    obtain ⟨rfl, hdocument, hjournal⟩ := hdone
    dsimp only
    rw [Option.toList_none, List.append_nil]
    have hrest : ∀ r ∈ rs, ∃ r', r.follow edits = some r' ∧
        s₁.document.Reads r' mainTextToken.chars := by
      intro q hq
      rw [hdocument]
      exact h q (List.mem_cons_of_mem r hq)
    refine (ih hrest (current + 1) (report.count none)).mono (fun report' s' hall => ?_) fun _ => id
    obtain ⟨hscanned, hdocument', hjournal'⟩ := hall
    refine ⟨hscanned.trans (scanned_count report none), hdocument'.trans hdocument, ?_⟩
    rw [hjournal', hjournal, Journal.note_note]
    rfl

/-- The first occurrence takes the content, and all others stay and are
reported. -/
theorem processAll_first_ends {s : Session} {r : TextRange} {rs : List TextRange}
    (hr : s.document.Reads r mainTextToken.chars) {content : List Block} {d' : Document} {e : Edit}
    (hsplice : s.document.splice r content = .ok (d', e))
    (h : ∀ q ∈ rs, ∃ q', q.rebase e = some q' ∧ d'.Reads q' mainTextToken.chars)
    (total current : Nat) (report : PassReport) :
    (processAll total current [] [.mainText (some content)] report (r :: rs)).Ends s
      (fun report' s' => report'.scanned = report.scanned ∧ s'.document = d' ∧
        s'.journal = s.journal.note (List.replicate rs.length extraMainText))
      fun _ => False := by
  rw [processAll, TextRange.follow_nil]
  refine ends_bind (ends_notify (ends_bind ?_))
  have hone := processOne_first_ends
    (s := { s with notices := s.notices ++ [.count current total] }) hr hsplice
  refine hone.mono (fun done s₁ hdone => ?_) fun _ => id
  obtain ⟨rfl, hdocument, hjournal⟩ := hdone
  have hrest : ∀ q ∈ rs, ∃ q', q.follow ([] ++ [e]) = some q' ∧
      s₁.document.Reads q' mainTextToken.chars := by
    intro q hq
    rw [hdocument, TextRange.follow_append_singleton]
    exact h q hq
  refine (processAll_further_ends hrest total (current + 1) (report.count (some e))).mono
    (fun report' s' hall => ?_) fun _ => id
  obtain ⟨hscanned, hdocument', hjournal'⟩ := hall
  exact ⟨hscanned.trans (scanned_count report (some e)), hdocument'.trans hdocument,
    hjournal ▸ hjournal'⟩

/-- The ranges of the other occurrences can be followed through an edit at the
first one. -/
theorem exists_rebase_of_edited {d d' : Document} (h : d.Numbered) {r : TextRange}
    {rs : List TextRange} (hsearch : d.search mainTextPattern = r :: rs) {e : Edit}
    (hrange : e.range = r) (hedited : d.Edited d' e) :
    ∀ q ∈ rs, ∃ q', q.rebase e = some q' ∧ d'.Reads q' mainTextToken.chars := by
  rw [← Document.map_fst_found] at hsearch
  obtain ⟨o, rest, hfound, rfl, rfl⟩ := List.map_eq_cons_iff.mp hsearch
  have htoken : ∀ o' ∈ o :: rest, o'.2 = mainTextToken.chars := fun o' ho' =>
    eq_of_mem_found_mainText (hfound ▸ ho')
  have hpending := pending_found h mainTextPattern
  rw [hfound] at hpending
  have hne : o.2 ≠ [] := by
    rw [htoken o List.mem_cons_self]
    decide
  have hafter := hpending.edited rfl hne hrange hedited
  intro q hq
  obtain ⟨o', ho', rfl⟩ := List.mem_map.mp hq
  have hreads := hafter.reads o' ho'
  rw [htoken o' (List.mem_cons_of_mem o ho'), TextRange.follow_append_singleton] at hreads
  cases hrebase : o'.1.rebase e with
  | some q' =>
    rw [TextRange.follow_nil, Option.bind_some, hrebase] at hreads
    exact ⟨q', rfl, hreads⟩
  | none =>
    -- only what is blank gets lost
    rw [TextRange.follow_nil, Option.bind_some, hrebase] at hreads
    exact absurd hreads (Bool.eq_false_iff.mp (Token.not_allBlank_chars _))

theorem reads_of_search_mainText {d : Document} (h : d.Numbered) {r : TextRange}
    (hr : r ∈ d.search mainTextPattern) : d.Reads r mainTextToken.chars := by
  rw [← Document.map_fst_found] at hr
  obtain ⟨⟨r, x⟩, ho, rfl⟩ := List.mem_map.mp hr
  obtain rfl := eq_of_mem_found_mainText ho
  exact h.reads_of_mem_found ho

/-- What a session has become by the insertion of a main text: one edit at the
first occurrence of the token, and a report of each of the others; or, if there
is none, one report of that. -/
def TookMainText (content : List Block) (s s' : Session) : Prop :=
  match s.document.search mainTextPattern with
  | [] => s'.document = s.document ∧ s'.journal = s.journal.note [missingMainText]
  | r :: rs => ∃ e, s.document.splice r content = .ok (s'.document, e) ∧
    s.document.PutFor r content s'.document e ∧
    (∀ q ∈ rs, ∃ q', q.rebase e = some q' ∧ s'.document.rangeText q' = .ok "%MAIN_TEXT%") ∧
    s'.journal = s.journal.note (List.replicate rs.length extraMainText)

theorem insertMainText_ends (content : List Block) {s : Session} (h : s.document.Numbered) :
    (insertMainText content).Ends s (fun _ s' => TookMainText content s s') fun _ => False := by
  refine ends_bind (ends_notify (ends_bind (ends_bind (ends_get ?_))))
  unfold TookMainText
  dsimp only
  cases hsearch : s.document.search mainTextPattern with
  | nil =>
    rw [processAll]
    exact ends_pure (ends_warn ⟨rfl, rfl⟩)
  | cons r rs =>
    have hr := reads_of_search_mainText h (hsearch ▸ List.mem_cons_self)
    obtain ⟨d', e, hsplice, hrange, hedited, hput⟩ := h.exists_putFor hr content
    have hothers := exists_rebase_of_edited h hsearch hrange hedited
    have hall := processAll_first_ends
      (s := { s with notices := s.notices ++ [.stage "Inserting main text"] }) hr hsplice hothers
      (r :: rs).length 1 { scanned := (r :: rs).length }
    refine hall.mono (fun report s' hdone => ?_) fun _ => id
    obtain ⟨hscanned, rfl, hjournal⟩ := hdone
    have hfound : report.scanned ≠ 0 := by
      rw [hscanned]
      exact Nat.succ_ne_zero _
    rw [if_neg hfound]
    refine ends_pure ⟨e, hsplice, hput, fun q hq => ?_, hjournal⟩
    obtain ⟨q', hq', hreads⟩ := hothers q hq
    exact ⟨q', hq', Document.rangeText_of_reads hreads⟩

/-- **The main text goes in once.** The insertion never fails. It puts the
content for the first occurrence of its token, in document order, as blocks in a
paragraph and as plain text in a cell, and does nothing else to the document. So
the content is as it was, whatever tokens it holds; and each further occurrence
can be followed to where it is now, reads as before, and is reported. If the
token does not occur, the document stays, and one report says so. Documents are
then included as if there were no main text. -/
theorem inserts_main_text_once (content : List Block) {s : Session} (h : s.document.Numbered) :
    ∃ s', (insertMainText content).run s = .ok () s' ∧ TookMainText content s s' ∧
      ∀ w limit, (includeDocuments w limit (some content)).run s =
        (includeDocuments w limit none).run s' := by
  obtain ⟨_, s', hrun, htook⟩ := (insertMainText_ends content h).exists_ok
  refine ⟨s', hrun, htook, fun w limit => ?_⟩
  unfold includeDocuments
  simp only
  rw [run_bind, hrun]

/-- That the ids are distinct is not enough: the second token is looked for in
the paragraph before the content, and the insertion fails. -/
theorem insertMainText_fails_overtaken :
    (Document.overtaken "A %MAIN_TEXT% B %MAIN_TEXT%").ids.Nodup ∧
    (insertMainText [.pageBreak]).Ends { document := .overtaken "A %MAIN_TEXT% B %MAIN_TEXT%" }
      (fun _ _ => False) (fun e => e = .stale ⟨⟨1, none, 3, 14⟩⟩) :=
  ⟨Document.nodup_ids_overtaken _, by decide +kernel⟩

/-- Three places for the main text, two of them in one paragraph. -/
def threePlaces : Document :=
  .ofBlocks "Report" [.paragraph (.plain "a %MAIN_TEXT% b %MAIN_TEXT%"),
    .table { headers := [⟨"%MAIN_TEXT%", {}⟩], rows := [] }]

/-- The content holds the token, too. -/
theorem inserts_in_threePlaces :
    threePlaces.Numbered ∧
      ∃ s', (insertMainText [.paragraph (.plain "%MAIN_TEXT%"), .pageBreak]).run
          { document := threePlaces } = .ok () s' ∧
        s'.document.blocks = [.paragraph { id := 1, runs := [⟨"a ", {}⟩] },
          .paragraph { id := 3, runs := [⟨"%MAIN_TEXT%", {}⟩] }, .pageBreak,
          .paragraph { id := 4, runs := [⟨" b %MAIN_TEXT%", {}⟩] },
          .table { id := 2, headers := [⟨"%MAIN_TEXT%", {}⟩], rows := [] }] ∧
        s'.journal.diagnostics = [extraMainText, extraMainText] := by
  have hnumbered : threePlaces.Numbered := Document.numbered_ofBlocks _ _
  obtain ⟨s', hrun, htook, -⟩ := inserts_main_text_once
    [.paragraph (.plain "%MAIN_TEXT%"), .pageBreak] (s := { document := threePlaces }) hnumbered
  have hsearch : threePlaces.search mainTextPattern =
      [⟨1, none, 2, 13⟩, ⟨1, none, 16, 27⟩, ⟨2, some ⟨0, 0⟩, 0, 11⟩] := by decide +kernel
  simp only [TookMainText, hsearch] at htook
  obtain ⟨e, hsplice, -, -, hjournal⟩ := htook
  refine ⟨hnumbered, s', hrun, ?_, congrArg Journal.diagnostics hjournal⟩
  obtain ⟨hdocument, -⟩ := Prod.mk.inj (Except.ok.inj hsplice)
  rw [← hdocument]
  decide +kernel

end Macro
end Compositor
