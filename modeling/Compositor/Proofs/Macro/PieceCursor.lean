/-
# A cursor in a piece of a paragraph

In a paragraph the pass for values and tables of contents goes from occurrence
to occurrence, too, and the invariant of the walk is that of a cell. A value
moves the cursor on in the paragraph. A table of contents ends the piece
before it: the cursor is then at the beginning of the paragraph that is split
off, which has an id of its own.

Key definition: `PieceCursor`.
Key theorems: `PieceCursor.move`, `PieceCursor.split`, `walk_paragraph_ends`.
-/
import Compositor.Proofs.Macro.Answering
import Compositor.Proofs.Macro.Cursor

namespace Compositor
open Text

namespace Macro
open Job Document

/-- A walk in the middle of a piece of a paragraph: the stretches before the
cursor are replaced, and the text behind it is cut as given. A piece that
comes behind a cut was not blank, or it would not be there. -/
structure PieceCursor (table : LookupTable) (title : String) (before after : List Block)
    (q : Paragraph) (id? : Option Nat) (piece : List Stretch) (text : Styled) (c : Cut)
    (ranges : List TextRange) (s : Session) (k : Walk) : Prop where
  numbered : s.document.Numbered
  handlers : k.handlers = (valuePass table title).handlers
  blocks : s.document.bare = before ++ .paragraph q :: after
  first : ∀ id ∈ id?, q.id = id
  styled : q.styled = putOf piece ++ text
  chars : text.chars = c.text
  tokens : ∀ o ∈ c.occurrences, ReadsAsToken o.found
  visible : id? = none → allBlank (textOf piece ++ text : Styled).chars = false
  spans : ranges.map (·.follow k.edits) =
    (spansFrom (size (putOf piece).chars) c.occurrences).map
      fun span => some ⟨q.id, none, span.1, span.2⟩

/-- A paragraph is the image of a piece if it has its text, and its id if it
is the first piece. -/
theorem image_matches {q : Paragraph} {id? : Option Nat} {piece : List Stretch} {runs : List Run}
    (hid : ∀ id ∈ id?, q.id = id) (hruns : runs.flatMap Run.styled = putOf piece) :
    (q.image id? piece).Matches (.paragraph { q with runs }) :=
  ⟨_, rfl, hid, rfl, rfl, hruns⟩

theorem half_image_matches {q : Paragraph} {id? : Option Nat} {piece : List Stretch}
    {runs : List Run} (hid : ∀ id ∈ id?, q.id = id)
    (hruns : runs.flatMap Run.styled = putOf piece) :
    List.Forall₂ Image.Matches (if allBlank (putOf piece).chars then [] else [q.image id? piece])
      (half { q with runs }) := by
  have hchars : Paragraph.chars { q with runs } = (putOf piece).chars := by
    rw [← Paragraph.chars_styled, ← hruns]
    rfl
  rw [half, hchars]
  split
  · exact .nil
  · exact .cons (image_matches hid hruns) .nil

/-- A text with a token in it is not blank. -/
theorem not_allBlank_of_token {o : Occurrence} {os : List Occurrence} {rest : List Char}
    (h : ReadsAsToken o.found) : allBlank (Cut.text ⟨o :: os, rest⟩) = false := by
  refine Bool.eq_false_iff.mpr fun hblank => not_readsAsToken_of_allBlank ?_ h
  rw [Cut.text_cons_eq] at hblank
  simp only [allBlank, List.all_append, Bool.and_eq_true] at hblank ⊢
  exact hblank.1.2

namespace PieceCursor

variable {table : LookupTable} {title : String} {before after : List Block} {q : Paragraph}
  {id? : Option Nat} {piece : List Stretch} {gap found behind : Styled} {o : Occurrence}
  {os : List Occurrence} {rest : List Char} {r : TextRange} {ranges : List TextRange}
  {s s' : Session} {k k' : Walk}

theorem styled_cons (h : PieceCursor table title before after q id? piece
    (gap ++ (found ++ behind)) ⟨o :: os, rest⟩ (r :: ranges) s k) :
    q.styled = putOf piece ++ gap ++ found ++ behind := by
  rw [h.styled]
  simp only [List.append_assoc]

theorem spans_cons (h : PieceCursor table title before after q id? piece
    (gap ++ (found ++ behind)) ⟨o :: os, rest⟩ (r :: ranges) s k) (hgap : gap.chars = o.gap)
    (hfound : found.chars = o.found) :
    r.follow k.edits = some (q.rangeAfter (putOf piece ++ gap) found) ∧
      ranges.map (·.follow k.edits) =
        (spansFrom (size ((putOf piece ++ gap : Styled).chars ++ found.chars)) os).map
          fun span => some ⟨q.id, none, span.1, span.2⟩ := by
  have hspans := h.spans
  dsimp only at hspans
  rw [spansFrom, ← hgap, ← hfound, ← size_append, ← Styled.chars_append, ← size_append] at hspans
  exact List.cons.inj hspans

theorem reads (h : PieceCursor table title before after q id? piece
    (gap ++ (found ++ behind)) ⟨o :: os, rest⟩ (r :: ranges) s k) :
    s.document.Reads (q.rangeAfter (putOf piece ++ gap) found) found.chars := by
  obtain ⟨front, back, hblocks, -, -⟩ := exists_of_bare h.blocks rfl
  have hmem : Block.paragraph q ∈ s.document.blocks := by
    rw [hblocks]
    simp
  refine ⟨q.chars, h.numbered.textAt_paragraph hmem, ?_⟩
  refine slice?_eq_some_iff.mpr ⟨_, behind.chars, ?_, rfl, rfl⟩
  rw [← Paragraph.chars_styled, h.styled_cons, Styled.chars_append, Styled.chars_append]

theorem start_lt_stop (h : PieceCursor table title before after q id? piece
    (gap ++ (found ++ behind)) ⟨o :: os, rest⟩ (r :: ranges) s k) (hfound : found.chars = o.found) :
    size (putOf piece ++ gap : Styled).chars <
      size ((putOf piece ++ gap : Styled).chars ++ found.chars) := by
  obtain ⟨x, -, hslice⟩ := h.reads
  refine lt_of_slice? hslice ?_
  rw [hfound]
  exact (h.tokens o List.mem_cons_self).ne_nil

/-- Behind an occurrence that stays or is replaced by a value the cursor moves
on in the piece. -/
theorem move (h : PieceCursor table title before after q id? piece
    (gap ++ (found ++ behind)) ⟨o :: os, rest⟩ (r :: ranges) s k) (hgap : gap.chars = o.gap)
    (hfound : found.chars = o.found) (hbehind : behind.chars = Cut.text ⟨os, rest⟩)
    {edits : List Edit}
    (hk : Walk.Replies table title (q.rangeAfter (putOf piece ++ gap) found) o.found s s' k k'
      edits)
    (hne : table.answer o.found ≠ .contents) :
    ∃ q' : Paragraph, q'.image = q.image ∧ q'.id = q.id ∧
      PieceCursor table title before after q' id?
        (piece ++ [{ text := gap }] ++ [⟨found, table.answer o.found⟩]) behind ⟨os, rest⟩ ranges
        s' k' ∧
      (table.answer o.found = .stays → s'.document = s.document) ∧
      ∀ r r' : TextRange, r.follow k.edits = some r' → r'.block ≠ q.id →
        r.follow k'.edits = some r' := by
  obtain ⟨-, hspans⟩ := h.spans_cons hgap hfound
  have hhandlers := hk.handlers.trans h.handlers
  have hedits := hk.appended
  have hanswered := hk.answered
  have htokens : ∀ o' ∈ os, ReadsAsToken o'.found :=
    fun o' ho' => h.tokens o' (List.mem_cons_of_mem o ho')
  have hput : ∀ answer, putOf (piece ++ [{ text := gap }] ++ [⟨found, answer⟩]) =
      putOf piece ++ gap ++ Stretch.put ⟨found, answer⟩ := by
    intro answer
    rw [putOf_append, putOf_append, putOf_singleton, putOf_singleton]
    rfl
  have hvisible : ∀ answer, id? = none →
      allBlank (textOf (piece ++ [{ text := gap }] ++ [⟨found, answer⟩]) ++ behind : Styled).chars
        = false := by
    intro answer hnone
    rw [textOf_append, textOf_append, textOf_singleton, textOf_singleton]
    have hpiece := h.visible hnone
    rw [← List.append_assoc, ← List.append_assoc] at hpiece
    exact hpiece
  cases hanswer : table.answer o.found with
  | contents => exact absurd hanswer hne
  | stays =>
    rw [hanswer] at hanswered
    obtain ⟨rfl, hdoc⟩ := hanswered
    rw [List.append_nil] at hedits
    refine ⟨q, rfl, rfl,
      ⟨hk.numbered, hhandlers, ?_, h.first, ?_, hbehind, htokens, hvisible _, ?_⟩,
      fun _ => hdoc, fun r r' hr _ => ?_⟩
    · rw [hdoc]
      exact h.blocks
    · rw [hput]
      exact h.styled_cons
    · rw [hput, hedits, Stretch.put, Styled.chars_append (putOf piece ++ gap)]
      exact hspans
    · rw [hedits]
      exact hr
  | value text =>
    rw [hanswer] at hanswered
    obtain ⟨e, rfl, hreplace⟩ := hanswered
    have hxne : found ≠ [] := by
      rintro rfl
      exact (h.tokens o List.mem_cons_self).ne_nil hfound.symm
    obtain ⟨runs, hblocks, hruns, rfl⟩ :=
      h.numbered.bare_replaceText h.blocks h.styled_cons hxne hreplace
    refine ⟨{ q with runs }, rfl, rfl, ⟨hk.numbered, hhandlers, hblocks, h.first, ?_, hbehind,
      htokens, hvisible _, ?_⟩, fun hstays => ?_, fun r r' hr hblock => ?_⟩
    · rw [hput]
      exact hruns
    · rw [hput, hedits, Stretch.put, Styled.chars_append (putOf piece ++ gap),
        Styled.chars_inFormatOf, size_append]
      exact map_follow_text (h.start_lt_stop hfound) hspans
    · cases hstays
    · rw [hedits, TextRange.follow_append_singleton, hr]
      exact TextRange.rebase_elsewhere fun haddress => hblock haddress.1

/-- A table of contents ends the piece. The cursor is at the beginning of the
next one then, unless nothing is left. -/
theorem split (h : PieceCursor table title before after q id? piece
    (gap ++ (found ++ behind)) ⟨o :: os, rest⟩ (r :: ranges) s k) (hgap : gap.chars = o.gap)
    (hfound : found.chars = o.found) (hbehind : behind.chars = Cut.text ⟨os, rest⟩)
    {edits : List Edit}
    (hk : Walk.Replies table title (q.rangeAfter (putOf piece ++ gap) found) o.found s s' k k'
      edits)
    (hcontents : table.answer o.found = .contents) :
    (∀ r r' : TextRange, r.follow k.edits = some r' → r'.block ≠ q.id →
        r.follow k'.edits = some r') ∧
    ∃ front, List.Forall₂ Image.Matches
        ((if allBlank (putOf (piece ++ [{ text := gap }])).chars then []
            else [q.image id? (piece ++ [{ text := gap }])])
          ++ [.kept (Handler.emptyContents title)]) front ∧
      (allBlank behind.chars = true ∧ os = [] ∧ ranges = [] ∧
          s'.document.bare = before ++ front ++ after ∨
        ∃ tail : Paragraph, tail.image = q.image ∧ tail.id = freshId s.document.nextId ∧
          PieceCursor table title (before ++ front) after tail none [] behind ⟨os, rest⟩ ranges
            s' k') := by
  obtain ⟨-, hspans⟩ := h.spans_cons hgap hfound
  have hedits := hk.appended
  have hanswered := hk.answered
  rw [hcontents] at hanswered
  obtain ⟨e, d₁, rfl, hsplice, hdoc⟩ := hanswered
  obtain ⟨head, tail, hhead, htail, hblocks, rfl⟩ :=
    h.numbered.bare_splice_contents h.blocks h.styled_cons hsplice
  have hbare : s'.document.bare = d₁.bare := by
    rw [hdoc]
    exact d₁.bare_refreshContents
  have hput : putOf (piece ++ [{ text := gap }]) = putOf piece ++ gap := by
    rw [putOf_append, putOf_singleton]
    rfl
  have hchars : ∀ id, Paragraph.chars { q with id, runs := tail } = behind.chars := by
    intro id
    rw [← Paragraph.chars_styled]
    exact congrArg Styled.chars htail
  have hkept : Image.Matches (.kept (Handler.emptyContents title)) (.contents { title }) := rfl
  refine ⟨fun r r' hr hblock => ?_, half { q with runs := head } ++ [.contents { title }],
    List.rel_append (half_image_matches h.first (hhead.trans hput.symm)) (.cons hkept .nil), ?_⟩
  · rw [hedits, TextRange.follow_append_singleton, hr]
    exact TextRange.rebase_elsewhere fun haddress => hblock haddress.1
  · have htailHalf : half { q with id := freshId s.document.nextId, runs := tail } =
        if allBlank behind.chars then []
        else [.paragraph { q with id := freshId s.document.nextId, runs := tail }] := by
      rw [half, hchars]
    rw [hblocks, htailHalf] at hbare
    cases hblank : allBlank behind.chars with
    | true =>
      have hnil : os = [] := by
        cases os with
        | nil => rfl
        | cons o' os =>
          rw [hbehind, not_allBlank_of_token
            (h.tokens o' (List.mem_cons_of_mem o List.mem_cons_self))] at hblank
          cases hblank
      subst hnil
      refine .inl ⟨rfl, rfl, List.map_eq_nil_iff.mp hspans, ?_⟩
      rw [hbare, hblank]
      simp
    | false =>
      rw [hblank] at hedits
      have hnone : ∀ id ∈ (none : Option Nat), freshId s.document.nextId = id :=
        fun id hid => (Option.not_mem_none id hid).elim
      refine .inr ⟨{ q with id := freshId s.document.nextId, runs := tail }, rfl, rfl, hk.numbered,
        hk.handlers.trans h.handlers, ?_, hnone, htail, hbehind,
        fun o' ho' => h.tokens o' (List.mem_cons_of_mem o ho'), fun _ => hblank, ?_⟩
      · rw [hbare, hblank]
        simp
      · rw [hedits]
        exact map_follow_split (h.start_lt_stop hfound) hspans

end PieceCursor

/-- A walk on from the cursor makes of the paragraph the images of the
stretches behind it, and leaves the document as it is if every occurrence
stays. -/
theorem walk_paragraph_ends {table : LookupTable} {title : String} {before after : List Block}
    {q : Paragraph} {id? : Option Nat} {piece : List Stretch} {text : Styled}
    {os : List Occurrence} {rest : List Char} {ranges : List TextRange} {s : Session} {k : Walk}
    (h : PieceCursor table title before after q id? piece text ⟨os, rest⟩ ranges s k)
    (total : Nat) :
    (ranges.foldlM (Walk.visit total) k).Ends s
      (fun k' s' => Walk.Rewrites table before after (some q.id) (os.map Occurrence.found)
          (imagesFrom title q.image id? piece (table.stretches os text)) s s' k k' ∧
        ((∀ o ∈ os, table.answer o.found = .stays) → s'.document = s.document))
      (fun _ => False) := by
  induction os generalizing s k before q id? piece text ranges with
  | nil =>
    obtain rfl : ranges = [] := List.map_eq_nil_iff.mp h.spans
    have hkept : (id?.isNone && allBlank (textOf (piece ++ [⟨text, .stays⟩])).chars) = false := by
      cases id? with
      | some id => rfl
      | none =>
        rw [textOf_append, textOf_singleton]
        exact h.visible rfl
    have hmatches : (q.image id? (piece ++ [⟨text, .stays⟩])).Matches (.paragraph q) := by
      refine image_matches h.first (h.styled.trans ?_)
      rw [putOf_append, putOf_singleton]
      rfl
    refine ends_pure ⟨⟨.nil h.numbered, ⟨[.paragraph q], ?_, ?_⟩, fun r r' hr _ _ => hr⟩,
      fun _ => rfl⟩
    · rw [h.blocks, List.append_assoc]
      rfl
    · rw [LookupTable.stretches, imagesFrom_cons_of_stays (by simp), imagesFrom, hkept]
      exact .cons hmatches .nil
  | cons o os ih =>
    obtain ⟨gap, found, behind, rfl, hgap, hfound, hbehind⟩ := exists_of_text_cons h.chars
    obtain ⟨r, ranges, rfl, -, -⟩ := List.map_eq_cons_iff.mp h.spans
    obtain ⟨hr, -⟩ := h.spans_cons hgap hfound
    have hread := h.reads
    rw [hfound] at hread
    rw [List.foldlM_cons]
    refine ends_bind ((visit_replies h.numbered (h.tokens o List.mem_cons_self) hread hr
      h.handlers total).mono (fun k' s' hvisit => ?_) fun _ => id)
    obtain ⟨edits, hk⟩ := hvisit
    rw [stretches_cons hgap hfound, imagesFrom_cons_of_stays (by simp)]
    by_cases hcontents : table.answer o.found = .contents
    · -- the piece ends here
      obtain ⟨helsewhere, front, hfront, hleft⟩ := h.split hgap hfound hbehind hk hcontents
      have htouched : ¬ ∀ o' ∈ o :: os, table.answer o'.found = .stays := by
        intro hstays
        rw [hstays o List.mem_cons_self] at hcontents
        cases hcontents
      rw [imagesFrom_cons_of_contents hcontents]
      rcases hleft with ⟨hblank, rfl, rfl, hblocks⟩ | ⟨tail, himage, hid, hcursor⟩
      · have hnothing : imagesFrom title q.image none [] (table.stretches [] behind) = [] := by
          rw [LookupTable.stretches, imagesFrom_cons_of_stays (by simp), imagesFrom,
            List.nil_append, textOf_singleton, hblank]
          rfl
        refine ends_pure ⟨⟨hk.answers, ⟨front, hblocks, ?_⟩, fun r r' hr hne _ => ?_⟩,
          fun hstays => absurd hstays htouched⟩
        · rw [hnothing, List.append_nil]
          exact hfront
        · exact helsewhere r r' hr fun he => hne (congrArg some he.symm)
      · refine (ih hcursor).mono (fun k'' s'' hrest => ?_) fun _ => id
        have hrewrites := hrest.1.behind hk.answers helsewhere (.inr (Nat.le_of_eq hid.symm)) hfront
        rw [himage] at hrewrites
        exact ⟨hrewrites, fun hstays => absurd hstays htouched⟩
    · obtain ⟨q', himage, hid, hcursor, hsame, helsewhere⟩ :=
        h.move hgap hfound hbehind hk hcontents
      rw [imagesFrom_cons_of_stays hcontents]
      rw [← List.append_nil before] at hcursor
      refine (ih hcursor).mono (fun k'' s'' hrest => ?_) fun _ => id
      have hrewrites := hrest.1.behind hk.answers helsewhere (.inl hid) .nil
      rw [himage] at hrewrites
      exact ⟨hrewrites, fun hstays =>
        (hrest.2 fun o' ho' => hstays o' (List.mem_cons_of_mem o ho')).trans
          (hsame (hstays o List.mem_cons_self))⟩

end Macro
end Compositor
