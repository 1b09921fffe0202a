/-
# A cursor in a paragraph

A pass that includes documents walks through a paragraph with several
directives in it. The invariant of this walk is `Cursor`: the text before the
cursor is settled, and the ranges still to be visited are the spans of the
occurrences behind it. A directive that brings in nothing moves the cursor
on; a document brought in cuts the paragraph there, and the cursor is then at
the beginning of what is split off.

Key definitions: `Journal.Learns`, `Walk.Opens`, `Cursor`.
Key theorems: `visit_include_ends`, `Cursor.stay`, `Cursor.split`,
`walk_cursor_ends`.
-/
import Compositor.Proofs.Macro.Inlining
import Compositor.Proofs.Macro.Walk

namespace Compositor
open Text Macro Job Document

/-! ### What a pass remembers -/

/-- Some directives were met: those whose files are missing are known to be
missing from then on, and no others come to be known. -/
def Journal.Learns (w : Workspace) (directives : List String) (j j' : Journal) : Prop :=
  ∀ x, j'.isMissing x = true ↔
    j.isMissing x = true ∨ x ∈ directives ∧ w.brought? x = none

/-- All directives known to be missing are missing. -/
def Journal.Sound (w : Workspace) (j : Journal) : Prop :=
  ∀ x, j.isMissing x = true → w.brought? x = none

namespace Journal

variable {w : Workspace} {j j' j'' : Journal}

theorem isMissing_markMissing_iff (j : Journal) (x y : String) :
    (j.markMissing x).isMissing y = true ↔ j.isMissing y = true ∨ y = x := by
  unfold markMissing
  split
  · rename_i hx
    constructor
    · exact .inl
    · rintro (hy | rfl)
      · exact hy
      · exact hx
  · simp only [isMissing, List.mem_cons, decide_eq_true_eq]
    exact or_comm

theorem learns_nil (w : Workspace) (j : Journal) : j.Learns w [] j := by
  intro x
  simp only [List.not_mem_nil, false_and, or_false]

theorem learns_singleton_iff {x : String} :
    j.Learns w [x] j' ↔ ∀ y, j'.isMissing y = true ↔
      j.isMissing y = true ∨ y = x ∧ w.brought? x = none := by
  refine forall_congr' fun y => ?_
  have hsame : y ∈ [x] ∧ w.brought? y = none ↔ y = x ∧ w.brought? x = none := by
    rw [List.mem_singleton]
    exact and_congr_right fun h => by rw [h]
  rw [hsame]

theorem Learns.append {ys zs : List String} (h : j.Learns w ys j') (h' : j'.Learns w zs j'') :
    j.Learns w (ys ++ zs) j'' := by
  intro x
  rw [h' x, h x, List.mem_append, or_and_right, or_assoc]

theorem Learns.sound {ys : List String} (h : j.Learns w ys j') (hj : j.Sound w) : j'.Sound w := by
  intro x hx
  rcases (h x).mp hx with hx | ⟨-, hx⟩
  · exact hj x hx
  · exact hx

end Journal

namespace Macro

/-! ### One visit -/

/-- The document after a directive was met at a range: as it was if the
directive brings in nothing, and otherwise with a document spliced in. -/
def IncludedAt (w : Workspace) (directive : String) (r : TextRange) (d d' : Document)
    (edits : List Edit) : Prop :=
  match w.brought? directive with
  | none => edits = [] ∧ d' = d
  | some inner => ∃ e, edits = [e] ∧ d.splice r inner.blocks = .ok (d', e)

/-- A walk past some directives, of a pass that includes documents. -/
structure Walk.Included (w : Workspace) (directives : List String) (s s' : Session) (k' : Walk) :
    Prop where
  numbered : s'.document.Numbered
  handlers : k'.handlers = [.inclusion w]
  learns : s.journal.Learns w directives s'.journal

/-- A walk past the directives of a block, which stands between others: it
becomes the given parts, and it stays as it is if none of the directives
brings in a document. Ranges in other blocks are followed to where they were
before. -/
structure Walk.Opens (w : Workspace) (before after : List Block) (id? : Option Nat)
    (directives : List String) (parts : List Part) (s s' : Session) (k k' : Walk) : Prop
    extends Walk.Included w directives s s' k' where
  blocks : ∃ bs, s'.document.blocks = before ++ bs ++ after ∧ List.Forall₂ Part.Matches parts bs
  untouched : (∀ x ∈ directives, w.brought? x = none) → s'.document = s.document
  elsewhere : ∀ r r' : TextRange, r.follow k.edits = some r' → id? ≠ some r'.block →
    r'.block < freshId s.document.nextId → r.follow k'.edits = some r'

section Visit

variable {w : Workspace} {s : Session} {r : TextRange} {argument : List Char}

theorem not_cannotLoad (hw : w.Loads) {fault : Fault}
    (h : CannotLoad [.inclusion w] fault) : False := by
  obtain ⟨w', path, cause, hw', hfile, hload, -⟩ := h
  obtain rfl := Handler.inclusion.inj (List.mem_singleton.mp hw')
  obtain ⟨d, hd⟩ := hw path hfile
  rw [hload] at hd
  cases hd

/-- What becomes of a directive, in terms of what it brings in. -/
theorem Handler.Included.learns {s' : Session} {edit? : Option Edit}
    (h : Handler.Included w r (includeToken argument) s s' edit?) (hj : s.journal.Sound w)
    (hline : '\n' ∉ argument) :
    s.journal.Learns w [(includeToken argument).raw] s'.journal ∧
      IncludedAt w (includeToken argument).raw r s.document s'.document edit?.toList := by
  have hpath : w.resolve ((includeToken argument).argument.getD "") =
      w.pathOf (includeToken argument).raw := (w.pathOf_includeToken hline).symm
  rw [Journal.learns_singleton_iff]
  unfold IncludedAt
  cases h with
  | known hknown hs =>
    subst hs
    rw [hj _ hknown]
    refine ⟨fun y => ⟨.inl, ?_⟩, rfl, rfl⟩
    rintro (hy | ⟨rfl, -⟩)
    · exact hy
    · exact hknown
  | missing hfile hdoc hmissing =>
    rw [hpath] at hfile
    have hnone := Workspace.brought?_of_not_isFile hfile
    rw [hnone]
    refine ⟨fun y => ?_, rfl, hdoc⟩
    rw [Journal.isMissing, hmissing]
    refine (Journal.isMissing_markMissing_iff s.journal _ y).trans ?_
    rw [and_iff_left rfl]
  | found hfile hload hsplice hjournal =>
    rw [hpath] at hfile hload
    rw [Workspace.brought?_of_isFile hfile hload, hjournal]
    refine ⟨fun y => ⟨.inl, ?_⟩, _, rfl, hsplice⟩
    rintro (hy | ⟨-, hnone⟩)
    · exact hy
    · cases hnone

theorem visit_include_ends (hw : w.Loads) (hd : s.document.Numbered) (hj : s.journal.Sound w)
    (hline : '\n' ∉ argument) (hr : s.document.Reads r (includeToken argument).chars)
    {k : Walk} (hk : k.handlers = [.inclusion w]) {found : TextRange}
    (hfollow : found.follow k.edits = some r) (total : Nat) :
    (k.visit total found).Ends s
      (fun k' s' => Walk.Included w [(includeToken argument).raw] s s' k' ∧
        ∃ edits, k'.edits = k.edits ++ edits ∧
          IncludedAt w (includeToken argument).raw r s.document s'.document edits)
      (fun _ => False) := by
  have hparse : Token.parse? (String.ofList (includeToken argument).chars) =
      some (includeToken argument) := Token.parse?_raw (isWellFormed_includeToken hline)
  have hjudge : (Handler.inclusion w).judge (includeToken argument) = .accept := by
    simp [Handler.judge, includeToken, Handler.verdict]
  refine ends_bind (ends_notify ?_)
  rw [hfollow]
  refine ends_bind (ends_rangeText hr ?_)
  rw [hparse]
  dsimp only
  unfold Walk.hand dispatch
  rw [hk]
  dsimp only
  rw [hjudge]
  refine ends_bind (ends_bind (ends_bind ?_))
  refine (Handler.includeDocument_ends
    (s := { s with notices := s.notices ++ [.count k.current total] }) hd hr w _).mono
      (fun edit? s' hdone => ?_) fun _ => not_cannotLoad hw
  obtain ⟨hlearns, hincluded⟩ := hdone.learns hj hline
  refine ends_pure (ends_pure (ends_bind (ends_pure (ends_pure ?_))))
  exact ⟨⟨(hdone.doneAt hd hr).numbered hd, rfl, hlearns⟩, edit?.toList, rfl, hincluded⟩

end Visit

/-! ### A paragraph -/

/-- The half of a paragraph that is cut is what becomes of its piece. -/
theorem half_matches (p : Paragraph) (id : Nat) {text : Styled} {runs : List Run}
    (h : runs.flatMap Run.styled = text) :
    List.Forall₂ Part.Matches ((p.piece text).flatMap Segment.opened)
      (half { p with id, runs }) := by
  have hchars : Paragraph.chars { p with id, runs } = text.chars := by
    rw [← Paragraph.chars_styled, ← h]
    rfl
  rw [Paragraph.piece, half, hchars]
  split
  · exact .nil
  · exact .cons ⟨_, rfl, rfl, rfl, h⟩ .nil

/-- A document spliced in: the text before the range is a piece, the blocks of
the document follow, and the text behind the range stands in a new paragraph
of the same style and level. -/
theorem splice_opens {d d' inner : Document} {e : Edit} (hd : d.Numbered)
    {before after : List Block} {q : Paragraph} (hb : d.blocks = before ++ .paragraph q :: after)
    {a x b : Styled} (hq : q.styled = a ++ x ++ b)
    (h : d.splice (q.rangeAfter a x) inner.blocks = .ok (d', e)) :
    ∃ front id runs, d'.blocks = before ++ front ++ half { q with id, runs } ++ after ∧
      List.Forall₂ Part.Matches
        ((q.piece a).flatMap Segment.opened ++ (Segment.file inner).opened) front ∧
      runs.flatMap Run.styled = b ∧ freshId d.nextId ≤ id ∧ id < freshId d'.nextId ∧
      e = ⟨q.rangeAfter a x, .split (if allBlank b.chars then none else some id)⟩ := by
  obtain ⟨head, tail, hhead, htail, hsplice⟩ := hd.splice_eq hb hq inner.blocks
  have hlast := d.tailId_eq inner.blocks
  have hinner := matches_of_map_anonymous
    (map_anonymous_adoptBlocks d.objectNames d.nextId inner.blocks)
  generalize d.tailId inner.blocks = id at hsplice hlast
  generalize adoptBlocks d.objectNames d.nextId inner.blocks = adopted at hsplice hinner
  rw [hsplice] at h
  obtain ⟨rfl, rfl⟩ := Prod.mk.inj (Except.ok.inj h)
  have hfront := List.rel_append (half_matches q q.id hhead) hinner
  refine ⟨_, id, tail, ?_, hfront, htail, ?_, ?_, rfl⟩
  · simp only [List.append_assoc]
  · rw [hlast]
    exact Nat.le_add_right _ _
  · show id < freshId (id + 1)
    rw [freshId_succ]
    exact Nat.lt_succ_self id

/-- Spans behind a position, followed past one more edit that moves what is
behind there, are the same spans behind the position where it puts them. -/
theorem map_follow_behind {ranges : List TextRange} {edits : List Edit} {e : Edit}
    {id id' stop stop' : Nat} {cell cell' : Option CellPosition} {os : List Occurrence}
    (hrebase : ∀ a b, a ≤ b → (⟨id, cell, stop + a, stop + b⟩ : TextRange).rebase e =
      some ⟨id', cell', stop' + a, stop' + b⟩)
    (h : ranges.map (·.follow edits) =
      (spansFrom stop os).map fun span => some ⟨id, cell, span.1, span.2⟩) :
    ranges.map (·.follow (edits ++ [e])) =
      (spansFrom stop' os).map fun span => some ⟨id', cell', span.1, span.2⟩ := by
  have hspans : ∀ offset, spansFrom offset os =
      (spansFrom 0 os).map fun span => (offset + span.1, offset + span.2) :=
    fun offset => spansFrom_add offset 0 os
  have hfollow : ranges.map (·.follow (edits ++ [e])) =
      (ranges.map (·.follow edits)).map (·.bind (·.rebase e)) := by
    rw [List.map_map]
    exact List.map_congr_left fun r _ => TextRange.follow_append_singleton r edits e
  rw [hfollow, h, hspans stop, hspans stop', List.map_map, List.map_map, List.map_map]
  exact List.map_congr_left fun span hspan => hrebase span.1 span.2 (start_le_stop hspan)

section Follow

variable {ranges : List TextRange} {edits : List Edit} {id start stop : Nat} {os : List Occurrence}

/-- The spans behind a range at which a paragraph is split, followed there, are
the same spans from the beginning of the new paragraph. -/
theorem map_follow_split {tail : Nat} (hlt : start < stop)
    (h : ranges.map (·.follow edits) =
      (spansFrom stop os).map fun span => some ⟨id, none, span.1, span.2⟩) :
    ranges.map (·.follow (edits ++ [⟨⟨id, none, start, stop⟩, .split (some tail)⟩])) =
      (spansFrom 0 os).map fun span => some ⟨tail, none, span.1, span.2⟩ := by
  refine map_follow_behind (fun a b hle => ?_) h
  have hrebase : (⟨id, none, stop + a, stop + b⟩ : TextRange).rebase
      ⟨⟨id, none, start, stop⟩, .split (some tail)⟩ =
        some ⟨tail, none, stop + a - stop, stop + b - stop⟩ :=
    TextRange.rebase_behind rfl rfl (Nat.le_add_right _ _)
      (Nat.lt_of_lt_of_le hlt (Nat.le_add_right _ _))
  rw [Nat.add_sub_cancel_left, Nat.add_sub_cancel_left] at hrebase
  rw [hrebase, Nat.zero_add, Nat.zero_add]

/-- The spans behind a range that was replaced, followed there, are the same
spans behind the new text. -/
theorem map_follow_text {cell : Option CellPosition} {n : Nat} (hlt : start < stop)
    (h : ranges.map (·.follow edits) =
      (spansFrom stop os).map fun span => some ⟨id, cell, span.1, span.2⟩) :
    ranges.map (·.follow (edits ++ [⟨⟨id, cell, start, stop⟩, .text n⟩])) =
      (spansFrom (start + n) os).map fun span => some ⟨id, cell, span.1, span.2⟩ := by
  refine map_follow_behind (fun a b hle => ?_) h
  have hrebase : (⟨id, cell, stop + a, stop + b⟩ : TextRange).rebase
      ⟨⟨id, cell, start, stop⟩, .text n⟩ =
        some ⟨id, cell, stop + a - (stop - start) + n, stop + b - (stop - start) + n⟩ :=
    TextRange.rebase_behind rfl rfl (Nat.le_add_right _ _)
      (Nat.lt_of_lt_of_le hlt (Nat.le_add_right _ _))
  have hfirst : stop + a - (stop - start) + n = start + n + a := by omega
  have hlast : stop + b - (stop - start) + n = start + n + b := by omega
  rw [hrebase, hfirst, hlast]

end Follow

/-! ### The cursor in a paragraph -/

/-- A walk in the middle of a paragraph: the text before the cursor is settled
as a piece, that behind it is cut as given, and the ranges still to be
visited are the spans of its occurrences. -/
structure Cursor (w : Workspace) (before after : List Block) (q : Paragraph) (piece text : Styled)
    (c : Cut) (ranges : List TextRange) (s : Session) (k : Walk) : Prop where
  numbered : s.document.Numbered
  sound : s.journal.Sound w
  handlers : k.handlers = [.inclusion w]
  blocks : s.document.blocks = before ++ .paragraph q :: after
  styled : q.styled = piece ++ text
  cuts : includeRecogniser.Cuts c
  chars : text.chars = c.text
  visible : allBlank q.chars = false
  spans : ranges.map (·.follow k.edits) =
    (spansFrom (size piece.chars) c.occurrences).map fun span => some ⟨q.id, none, span.1, span.2⟩

namespace Cursor

variable {w : Workspace} {before after : List Block} {q : Paragraph}
  {piece gap found behind : Styled} {o : Occurrence} {os : List Occurrence} {rest : List Char}
  {r : TextRange} {ranges : List TextRange} {s s' : Session} {k k' : Walk}

theorem styled_cons (h : Cursor w before after q piece (gap ++ (found ++ behind))
    ⟨o :: os, rest⟩ (r :: ranges) s k) : q.styled = piece ++ gap ++ found ++ behind := by
  rw [h.styled]
  simp only [List.append_assoc]

theorem spans_cons (h : Cursor w before after q piece (gap ++ (found ++ behind))
    ⟨o :: os, rest⟩ (r :: ranges) s k) (hgap : gap.chars = o.gap) (hfound : found.chars = o.found) :
    r.follow k.edits = some (q.rangeAfter (piece ++ gap) found) ∧
      ranges.map (·.follow k.edits) =
        (spansFrom (size ((piece ++ gap : Styled).chars ++ found.chars)) os).map
          fun span => some ⟨q.id, none, span.1, span.2⟩ := by
  have hspans := h.spans
  dsimp only at hspans
  rw [spansFrom, ← hgap, ← hfound, ← size_append, ← Styled.chars_append, ← size_append] at hspans
  exact List.cons.inj hspans

/-- The first range reads its occurrence. -/
theorem reads (h : Cursor w before after q piece (gap ++ (found ++ behind)) ⟨o :: os, rest⟩
    (r :: ranges) s k) : s.document.Reads (q.rangeAfter (piece ++ gap) found) found.chars := by
  refine ⟨q.chars, h.numbered.textAt_paragraph (by rw [h.blocks]; simp), ?_⟩
  refine slice?_eq_some_iff.mpr ⟨_, behind.chars, ?_, rfl, rfl⟩
  rw [← Paragraph.chars_styled, h.styled_cons, Styled.chars_append, Styled.chars_append]

theorem cuts_behind (h : Cursor w before after q piece (gap ++ (found ++ behind)) ⟨o :: os, rest⟩
    (r :: ranges) s k) : includeRecogniser.Cuts ⟨os, rest⟩ :=
  (Recogniser.cuts_cons_iff.mp h.cuts).2.2

/-- Behind a directive that brings in nothing the cursor moves on in the
paragraph. -/
theorem stay (h : Cursor w before after q piece (gap ++ (found ++ behind)) ⟨o :: os, rest⟩
    (r :: ranges) s k) (hgap : gap.chars = o.gap) (hfound : found.chars = o.found)
    (hbehind : behind.chars = Cut.text ⟨os, rest⟩) {x : String} (hk : Walk.Included w [x] s s' k')
    (hdoc : s'.document = s.document) (hedits : k'.edits = k.edits) :
    Cursor w before after q (piece ++ gap ++ found) behind ⟨os, rest⟩ ranges s' k' := by
  obtain ⟨-, hspans⟩ := h.spans_cons hgap hfound
  rw [← hedits, ← Styled.chars_append] at hspans
  exact ⟨hk.numbered, hk.learns.sound h.sound, hk.handlers, hdoc ▸ h.blocks, h.styled_cons,
    h.cuts_behind, hbehind, h.visible, hspans⟩

/-- Behind a directive that brings in a document the cursor is at the
beginning of the paragraph split off, unless nothing is left. -/
theorem split (h : Cursor w before after q piece (gap ++ (found ++ behind)) ⟨o :: os, rest⟩
    (r :: ranges) s k) (hgap : gap.chars = o.gap) (hfound : found.chars = o.found)
    (hbehind : behind.chars = Cut.text ⟨os, rest⟩) {x : String} (hk : Walk.Included w [x] s s' k')
    {d : Document} {e : Edit}
    (hsplice : s.document.splice (q.rangeAfter (piece ++ gap) found) d.blocks =
      .ok (s'.document, e))
    (hedits : k'.edits = k.edits ++ [e]) :
    e.range = q.rangeAfter (piece ++ gap) found ∧
    ∃ front, List.Forall₂ Part.Matches
        ((q.piece (piece ++ gap)).flatMap Segment.opened ++ (Segment.file d).opened) front ∧
      (allBlank behind.chars = true ∧ os = [] ∧ ranges = [] ∧
          s'.document.blocks = before ++ front ++ after ∨
        ∃ tail : Paragraph, tail.piece = q.piece ∧ freshId s.document.nextId ≤ tail.id ∧
          tail.id < freshId s'.document.nextId ∧
          Cursor w (before ++ front) after tail [] behind ⟨os, rest⟩ ranges s' k') := by
  obtain ⟨-, hspans⟩ := h.spans_cons hgap hfound
  obtain ⟨front, fresh, runs, hblocks, hfront, hruns, hle, hlt, rfl⟩ :=
    splice_opens h.numbered h.blocks h.styled_cons hsplice
  refine ⟨rfl, front, hfront, ?_⟩
  generalize htail : ({ q with id := fresh, runs } : Paragraph) = tail at hblocks
  have hchars : tail.chars = behind.chars := by
    rw [← Paragraph.chars_styled, ← htail]
    exact congrArg Styled.chars hruns
  cases hblank : allBlank behind.chars with
  | true =>
    -- a blank text holds no directive, so nothing is left
    have hnil : os = [] := by
      by_contra hne
      rw [hbehind, not_allBlank_of_cuts h.cuts_behind hne] at hblank
      cases hblank
    subst hnil
    refine .inl ⟨rfl, rfl, List.map_eq_nil_iff.mp hspans, ?_⟩
    rw [hblocks, half, hchars, hblank]
    simp
  | false =>
    have hne : found.chars ≠ [] := by
      obtain ⟨argument, -, hargument⟩ := exists_of_cuts h.cuts List.mem_cons_self
      rw [hfound, hargument]
      exact List.cons_ne_nil _ _
    obtain ⟨_, -, hslice⟩ := h.reads
    rw [hblank] at hedits
    refine .inr ⟨tail, ?_, ?_, ?_, hk.numbered, hk.learns.sound h.sound, hk.handlers, ?_, ?_,
      h.cuts_behind, hbehind, hchars ▸ hblank, ?_⟩
    · rw [← htail]
      rfl
    · rw [← htail]
      exact hle
    · rw [← htail]
      exact hlt
    · rw [hblocks, half, hchars, hblank]
      simp
    · rw [← htail]
      exact hruns
    · rw [hedits, ← htail]
      exact map_follow_split (lt_of_slice? hslice hne) hspans

end Cursor

/-- A walk on from the cursor makes of the paragraph what is to be inlined at
one level. -/
theorem walk_cursor_ends {w : Workspace} (hw : w.Loads) {before after : List Block} {q : Paragraph}
    {piece text : Styled} {os : List Occurrence} {rest : List Char} {ranges : List TextRange}
    {s : Session} {k : Walk} (h : Cursor w before after q piece text ⟨os, rest⟩ ranges s k)
    (total : Nat) :
    (ranges.foldlM (Walk.visit total) k).Ends s
      (fun k' s' => Walk.Opens w before after (some q.id) (directivesAt os)
        ((w.cutAtFiles q.piece piece os text).flatMap Segment.opened) s s' k k')
      (fun _ => False) := by
  induction os generalizing s k before q piece text ranges with
  | nil =>
    obtain rfl : ranges = [] := List.map_eq_nil_iff.mp h.spans
    have hmatches := half_matches q q.id h.styled
    rw [half, h.visible] at hmatches
    refine ends_pure ⟨⟨h.numbered, h.handlers, Journal.learns_nil w s.journal⟩,
      ⟨[.paragraph q], ?_, hmatches⟩, fun _ => rfl, fun r r' hr _ _ => hr⟩
    rw [h.blocks, List.append_assoc]
    rfl
  | cons o os ih =>
    obtain ⟨gap, found, behind, rfl, hgap, hfound, hbehind⟩ := exists_of_text_cons h.chars
    obtain ⟨argument, hline, hargument⟩ := exists_of_cuts h.cuts List.mem_cons_self
    obtain ⟨r, ranges, rfl, -, -⟩ := List.map_eq_cons_iff.mp h.spans
    obtain ⟨hr, -⟩ := h.spans_cons hgap hfound
    have hread := h.reads
    have hraw : String.ofList o.found = (includeToken argument).raw :=
      congrArg String.ofList hargument
    rw [hfound, hargument] at hread
    rw [List.foldlM_cons]
    refine ends_bind ((visit_include_ends hw h.numbered h.sound hline hread h.handlers hr
      total).mono (fun k' s' hvisit => ?_) fun _ => id)
    obtain ⟨hk, edits, hedits, hincluded⟩ := hvisit
    rw [← hraw] at hk hincluded
    cases hbrought : w.brought? (String.ofList o.found) with
    | none =>
      rw [IncludedAt, hbrought] at hincluded
      obtain ⟨rfl, hdoc⟩ := hincluded
      rw [List.append_nil] at hedits
      rw [Workspace.cutAtFiles_cons_none hgap hfound hbrought]
      refine (ih (h.stay hgap hfound hbehind hk hdoc hedits)).mono (fun k'' s'' hrest => ?_)
        fun _ => id
      refine ⟨⟨hrest.numbered, hrest.handlers, hk.learns.append hrest.learns⟩, hrest.blocks,
        fun hnone => ?_, fun r r' hr hne hlt => ?_⟩
      · exact (hrest.untouched fun x hx => hnone x (List.mem_cons_of_mem _ hx)).trans hdoc
      · rw [← hedits] at hr
        rw [← hdoc] at hlt
        exact hrest.elsewhere r r' hr hne hlt
    | some d =>
      rw [IncludedAt, hbrought] at hincluded
      obtain ⟨e, rfl, hsplice⟩ := hincluded
      obtain ⟨hrange, front, hfront, hleft⟩ := h.split hgap hfound hbehind hk hsplice hedits
      rw [Workspace.cutAtFiles_cons_some hgap hfound hbrought]
      have helsewhere : ∀ r r' : TextRange, r.follow k.edits = some r' →
          some q.id ≠ some r'.block → r.follow k'.edits = some r' := by
        intro r r' hr hne
        rw [hedits, TextRange.follow_append_singleton, hr]
        refine TextRange.rebase_elsewhere fun haddress => hne ?_
        rw [haddress.1, hrange]
        rfl
      have htouched : ¬ ∀ x ∈ directivesAt (o :: os), w.brought? x = none := by
        intro hnone
        rw [hnone _ List.mem_cons_self] at hbrought
        cases hbrought
      rcases hleft with ⟨hblank, rfl, rfl, hblocks⟩ | ⟨tail, hpiece, hle, hlt, hcursor⟩
      · have hnothing : w.cutAtFiles q.piece [] [] behind = [] := by
          rw [Workspace.cutAtFiles, List.nil_append, Paragraph.piece, hblank]
          rfl
        refine ends_pure ⟨hk, ⟨front, hblocks, ?_⟩, fun hnone => absurd hnone htouched,
          fun r r' hr hne _ => helsewhere r r' hr hne⟩
        rw [hnothing, List.flatMap_append]
        simpa using hfront
      · refine (ih hcursor).mono (fun k'' s'' hrest => ?_) fun _ => id
        obtain ⟨bs, hbs, hmatches⟩ := hrest.blocks
        rw [hpiece] at hmatches
        refine ⟨⟨hrest.numbered, hrest.handlers, hk.learns.append hrest.learns⟩,
          ⟨front ++ bs, ?_, ?_⟩, fun hnone => absurd hnone htouched, fun r r' hr hne hr' => ?_⟩
        · rw [hbs]
          simp only [List.append_assoc]
        · rw [List.flatMap_append, List.flatMap_cons, ← List.append_assoc]
          exact List.rel_append hfront hmatches
        · refine hrest.elsewhere r r' (helsewhere r r' hr hne) (fun he => ?_) (by omega)
          have := Option.some.inj he
          omega

end Macro
end Compositor
