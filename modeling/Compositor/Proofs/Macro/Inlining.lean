/-
# Documents inlined

What inclusion is to make of a document, file by file and without passes: a
paragraph in which a directive brings in a document is cut at each such
directive, the document is inlined there, and the pieces that are not blank
stay, with the style and level of the paragraph and the formats of their
characters. A directive whose file is missing stays in its piece, and all
else is kept.

Inlining goes down one level at a time as well: if the documents brought in
by the directives are put in their places as they are, what is then to be
inlined is what was to be inlined before.

Key definitions: `Part`, `Segment`, `Workspace.segments`,
`Workspace.Inlines`, `Part.Matches`, `Segment.opened`.
Key theorems: `Inlines.unique`, `Inlines.of_opened`, `mem_directivesOf_opened`.
-/
import Mathlib.Data.List.Forall2
import Compositor.Proofs.Document.Splicing
import Compositor.Proofs.Macro.Directives

namespace Compositor
open Text Macro

/-! ### Parts of an inlined document -/

/-- A block of an inlined document: a block kept from some document, without
its id or name, or a piece of a paragraph. -/
inductive Part where
  | kept (b : Block)
  | piece (style : Option String) (level : Option UInt8) (text : Styled)

/-- Is the block the given part, under any id or name and in any runs? The
runs of a block that was kept are those it had. -/
def Part.Matches : Part → Block → Prop
  | .kept a, b => b.anonymous = a
  | .piece style level text, b =>
    ∃ p, b = .paragraph p ∧ p.style = style ∧ p.level = level ∧ p.styled = text

/-- A part, or a document to be inlined in its place. -/
inductive Segment where
  | part (x : Part)
  | file (d : Document)

/-- A piece of a paragraph: nothing if it is blank. -/
def Paragraph.piece (p : Paragraph) (text : Styled) : List Segment :=
  if allBlank text.chars then [] else [.part (.piece p.style p.level text)]

namespace Workspace

/-- Does the block hold a directive whose file exists? -/
def bringsIn (w : Workspace) (b : Block) : Bool :=
  b.directives.any fun x => (w.brought? x).isSome

/-- A text from the gap before its next occurrences on, cut at each of them
that brings in a document. `piece` goes before it in its piece, and `put`
says what a piece becomes. -/
def cutAtFiles (w : Workspace) (put : Styled → List Segment) :
    (piece : Styled) → List Occurrence → (text : Styled) → List Segment
  | piece, [], text => put (piece ++ text)
  | piece, o :: os, text =>
    let gap := text.take o.gap.length
    let found := (text.drop o.gap.length).take o.found.length
    let behind := (text.drop o.gap.length).drop o.found.length
    match w.brought? (String.ofList o.found) with
    | none => w.cutAtFiles put (piece ++ gap ++ found) os behind
    | some d => put (piece ++ gap) ++ .file d :: w.cutAtFiles put [] os behind

section Cut

variable {w : Workspace} {put : Styled → List Segment} {o : Occurrence} {gap found : Styled}

theorem cutAtFiles_cons (hgap : gap.chars = o.gap) (hfound : found.chars = o.found)
    (piece behind : Styled) (os : List Occurrence) :
    w.cutAtFiles put piece (o :: os) (gap ++ (found ++ behind)) =
      match w.brought? (String.ofList o.found) with
      | none => w.cutAtFiles put (piece ++ gap ++ found) os behind
      | some d => put (piece ++ gap) ++ .file d :: w.cutAtFiles put [] os behind := by
  rw [cutAtFiles, ← hgap, Styled.length_chars, List.take_left, List.drop_left, ← hfound,
    Styled.length_chars, List.take_left, List.drop_left]

theorem cutAtFiles_cons_none (hgap : gap.chars = o.gap) (hfound : found.chars = o.found)
    (h : w.brought? (String.ofList o.found) = none) (piece behind : Styled)
    (os : List Occurrence) :
    w.cutAtFiles put piece (o :: os) (gap ++ (found ++ behind)) =
      w.cutAtFiles put (piece ++ gap ++ found) os behind := by
  rw [cutAtFiles_cons hgap hfound, h]

theorem cutAtFiles_cons_some (hgap : gap.chars = o.gap) (hfound : found.chars = o.found)
    {d : Document} (h : w.brought? (String.ofList o.found) = some d) (piece behind : Styled)
    (os : List Occurrence) :
    w.cutAtFiles put piece (o :: os) (gap ++ (found ++ behind)) =
      put (piece ++ gap) ++ .file d :: w.cutAtFiles put [] os behind := by
  rw [cutAtFiles_cons hgap hfound, h]

end Cut

/-- A block cut at the directives that bring in documents. -/
def segments (w : Workspace) (b : Block) : List Segment :=
  match b with
  | .paragraph p =>
    if w.bringsIn b then
      w.cutAtFiles p.piece [] (includePattern.cut p.chars).occurrences p.styled
    else [.part (.kept b.anonymous)]
  | _ => [.part (.kept b.anonymous)]

/-- The parts of some segments, each document among them inlined in turn. -/
inductive Inlines (w : Workspace) : List Segment → List Part → Prop
  | nil : w.Inlines [] []
  | part {x : Part} {segs : List Segment} {parts : List Part} :
    w.Inlines segs parts → w.Inlines (.part x :: segs) (x :: parts)
  | file {d : Document} {segs : List Segment} {inner parts : List Part} :
    w.Inlines (d.blocks.flatMap w.segments) inner → w.Inlines segs parts →
      w.Inlines (.file d :: segs) (inner ++ parts)

/-- There is only one way to inline. -/
theorem Inlines.unique {w : Workspace} {segs : List Segment} {parts parts' : List Part}
    (h : w.Inlines segs parts) (h' : w.Inlines segs parts') : parts = parts' := by
  induction h generalizing parts' with
  | nil =>
    cases h'
    rfl
  | part _ ih =>
    cases h' with
    | part h' => rw [ih h']
  | file _ _ ihinner ih =>
    cases h' with
    | file hinner' h' => rw [ihinner hinner', ih h']

theorem Inlines.exists_of_append {w : Workspace} {segs segs' : List Segment} {parts : List Part}
    (h : w.Inlines (segs ++ segs') parts) :
    ∃ front back, parts = front ++ back ∧ w.Inlines segs front ∧ w.Inlines segs' back := by
  induction segs generalizing parts with
  | nil => exact ⟨[], parts, rfl, .nil, h⟩
  | cons seg segs ih =>
    cases h with
    | part h =>
      obtain ⟨front, back, rfl, hfront, hback⟩ := ih h
      exact ⟨_ :: front, back, rfl, .part hfront, hback⟩
    | file hinner h =>
      obtain ⟨front, back, rfl, hfront, hback⟩ := ih h
      exact ⟨_, back, (List.append_assoc _ _ _).symm, .file hinner hfront, hback⟩

end Workspace

/-! ### Blocks without their ids and names -/

theorem directives_anonymous (b : Block) : b.anonymous.directives = b.directives := by
  cases b with
  | paragraph p =>
    rw [Block.anonymous, directives_paragraph, directives_paragraph]
    rfl
  | table t =>
    rw [Block.anonymous, directives_table, directives_table]
    rfl
  | object | contents | pageBreak => rfl

theorem segments_anonymous (w : Workspace) (b : Block) : w.segments b.anonymous = w.segments b := by
  have hbrings : w.bringsIn b.anonymous = w.bringsIn b := by
    rw [Workspace.bringsIn, directives_anonymous]
    rfl
  cases b with
  | paragraph p =>
    have hp : (Block.paragraph p).anonymous = .paragraph { p with id := 0 } := rfl
    rw [hp] at hbrings ⊢
    rw [Workspace.segments, Workspace.segments, hbrings]
    rfl
  | table | object | contents | pageBreak => rfl

/-- Blocks that differ in ids and names only have the same segments. -/
theorem flatMap_segments_congr (w : Workspace) {bs bs' : List Block}
    (h : bs.map Block.anonymous = bs'.map Block.anonymous) :
    bs.flatMap w.segments = bs'.flatMap w.segments := by
  have hmap : ∀ bs : List Block, bs.flatMap w.segments =
      (bs.map Block.anonymous).flatMap w.segments := by
    intro bs
    rw [List.flatMap_map]
    simp only [segments_anonymous]
  rw [hmap bs, hmap bs', h]

/-! ### Directives in parts -/

/-- The include directives in a part. -/
def Part.directives : Part → List String
  | .kept b => b.directives
  | .piece _ _ text => directivesAt (includePattern.cut text.chars).occurrences

theorem Part.Matches.directives_eq {x : Part} {b : Block} (h : x.Matches b) :
    b.directives = x.directives := by
  cases x with
  | kept a =>
    obtain rfl : b.anonymous = a := h
    exact (directives_anonymous b).symm
  | piece style level text =>
    obtain ⟨p, rfl, -, -, rfl⟩ := h
    rw [directives_paragraph, Part.directives, Paragraph.chars_styled]

/-- No directive in the part brings in a document. -/
def Part.Settled (w : Workspace) (x : Part) : Prop := ∀ y ∈ x.directives, w.brought? y = none

theorem bringsIn_eq_false_iff {w : Workspace} {b : Block} :
    w.bringsIn b = false ↔ ∀ y ∈ b.directives, w.brought? y = none := by
  simp only [Workspace.bringsIn, List.any_eq_false, Bool.not_eq_true, Option.isSome_eq_false_iff,
    Option.isNone_iff_eq_none]

theorem segments_of_settled {w : Workspace} {b : Block}
    (h : ∀ y ∈ b.directives, w.brought? y = none) :
    w.segments b = [.part (.kept b.anonymous)] := by
  have hbrings := bringsIn_eq_false_iff.mpr h
  cases b with
  | paragraph p =>
    rw [Workspace.segments, hbrings]
    rfl
  | table | object | contents | pageBreak => rfl

/-- The segments hold these directives, each once or more: those that bring in
a document as the document, all others as they stand in the parts. -/
structure Workspace.Sorts (w : Workspace) (directives : List String) (segs : List Segment) :
    Prop where
  kept : ∀ y, (∃ x, .part x ∈ segs ∧ y ∈ x.directives) ↔ y ∈ directives ∧ w.brought? y = none
  files : ∀ d, .file d ∈ segs ↔ ∃ y ∈ directives, w.brought? y = some d

namespace Workspace.Sorts

variable {w : Workspace}

theorem settled {ys : List String} {segs : List Segment} (h : w.Sorts ys segs) {x : Part}
    (hx : .part x ∈ segs) : x.Settled w :=
  fun y hy => ((h.kept y).mp ⟨x, hx, hy⟩).2

theorem nil : w.Sorts [] [] := by
  constructor <;> simp

theorem append {ys zs : List String} {segs segs' : List Segment} (h : w.Sorts ys segs)
    (h' : w.Sorts zs segs') : w.Sorts (ys ++ zs) (segs ++ segs') := by
  constructor
  · intro y
    have hsegs : (∃ x, .part x ∈ segs ++ segs' ∧ y ∈ x.directives) ↔
        (∃ x, .part x ∈ segs ∧ y ∈ x.directives) ∨ ∃ x, .part x ∈ segs' ∧ y ∈ x.directives := by
      simp only [List.mem_append, or_and_right, exists_or]
    rw [hsegs, h.kept y, h'.kept y, List.mem_append, or_and_right]
  · intro d
    simp only [List.mem_append, h.files d, h'.files d, or_and_right, exists_or]

theorem flatMap {α : Type} {ys : α → List String} {segs : α → List Segment} {l : List α}
    (h : ∀ a ∈ l, w.Sorts (ys a) (segs a)) : w.Sorts (l.flatMap ys) (l.flatMap segs) := by
  induction l with
  | nil => exact nil
  | cons a l ih =>
    rw [List.flatMap_cons, List.flatMap_cons]
    exact (h a List.mem_cons_self).append (ih fun b hb => h b (List.mem_cons_of_mem _ hb))

theorem part {x : Part} (hx : x.Settled w) : w.Sorts x.directives [.part x] := by
  constructor
  · intro y
    simpa using hx y
  · intro d
    constructor
    · intro hd
      cases List.mem_singleton.mp hd
    · rintro ⟨y, hy, hd⟩
      rw [hx y hy] at hd
      cases hd

theorem file {y : String} {d : Document} (hd : w.brought? y = some d) :
    w.Sorts [y] [.file d] := by
  constructor
  · intro z
    simp only [List.mem_singleton, reduceCtorEq, false_and, exists_false, false_iff, not_and]
    rintro rfl
    simp only [hd, reduceCtorEq, not_false_eq_true]
  · intro d'
    simp only [List.mem_singleton, exists_eq_left, hd, Segment.file.injEq, Option.some.injEq]
    exact eq_comm

end Workspace.Sorts

section Pieces

variable {w : Workspace} {p : Paragraph}

/-- A piece holds the directives that are cut out of its text, if none of them
brings in a document. -/
theorem sorts_piece {os : List Occurrence} {rest : List Char} {text : Styled}
    (hcuts : includeRecogniser.Cuts ⟨os, rest⟩) (htext : text.chars = Cut.text ⟨os, rest⟩)
    (hmissing : ∀ y ∈ directivesAt os, w.brought? y = none) :
    w.Sorts (directivesAt os) (p.piece text) := by
  unfold Paragraph.piece
  split
  · -- no directive is blank, so the text holds none
    rename_i hblank
    have hnil : os = [] := by
      by_contra hne
      rw [htext, not_allBlank_of_cuts hcuts hne] at hblank
      cases hblank
    rw [hnil]
    exact .nil
  · have hdirectives : (Part.piece p.style p.level text).directives = directivesAt os := by
      have hcut : includePattern.cut text.chars = ⟨os, rest⟩ := by
        rw [htext]
        exact hcuts
      rw [Part.directives, hcut]
    rw [← hdirectives] at hmissing ⊢
    exact .part hmissing

/-- The parts of a text that begins with an occurrence and its gap. -/
theorem exists_of_text_cons {o : Occurrence} {os : List Occurrence} {rest : List Char}
    {text : Styled} (h : text.chars = Cut.text ⟨o :: os, rest⟩) :
    ∃ gap found behind : Styled, text = gap ++ (found ++ behind) ∧ gap.chars = o.gap ∧
      found.chars = o.found ∧ behind.chars = Cut.text ⟨os, rest⟩ := by
  rw [Cut.text_cons_eq, List.append_assoc] at h
  obtain ⟨gap, u, rfl, hgap, hu⟩ := Styled.exists_of_chars_eq h
  obtain ⟨found, behind, rfl, hfound, hbehind⟩ := Styled.exists_of_chars_eq hu
  exact ⟨gap, found, behind, rfl, hgap, hfound, hbehind⟩

/-- Where a text is cut, no directive is lost and none comes about. -/
theorem sorts_cutAtFiles {before os : List Occurrence} {rest : List Char} {piece text : Styled}
    (hcuts : includeRecogniser.Cuts ⟨before ++ os, rest⟩)
    (hpiece : piece.chars = Cut.text ⟨before, []⟩) (htext : text.chars = Cut.text ⟨os, rest⟩)
    (hbefore : ∀ y ∈ directivesAt before, w.brought? y = none) :
    w.Sorts (directivesAt (before ++ os)) (w.cutAtFiles p.piece piece os text) := by
  induction os generalizing before piece text with
  | nil =>
    have hall : (piece ++ text : Styled).chars = Cut.text ⟨before, rest⟩ := by
      rw [Styled.chars_append, hpiece, htext]
      simp [Cut.text]
    rw [List.append_nil] at hcuts ⊢
    exact sorts_piece hcuts hall hbefore
  | cons o os ih =>
    obtain ⟨gap, found, behind, rfl, hgap, hfound, hbehind⟩ := exists_of_text_cons htext
    cases hbrought : w.brought? (String.ofList o.found) with
    | none =>
      -- the directive stays in the piece
      rw [Workspace.cutAtFiles_cons_none hgap hfound hbrought]
      have hsplit : before ++ o :: os = (before ++ [o]) ++ os := by
        rw [List.append_assoc]
        rfl
      rw [hsplit] at hcuts ⊢
      refine ih hcuts ?_ hbehind ?_
      · rw [Styled.chars_append, Styled.chars_append, hpiece, hgap, hfound]
        simp [Cut.text]
      · intro y hy
        rw [directivesAt, List.map_append, List.mem_append, List.map_singleton,
          List.mem_singleton] at hy
        rcases hy with hy | rfl
        · exact hbefore y hy
        · exact hbrought
    | some d =>
      -- the text is cut, and a new piece begins behind the directive
      rw [Workspace.cutAtFiles_cons_some hgap hfound hbrought]
      have hfront : w.Sorts (directivesAt before) (p.piece (piece ++ gap)) := by
        refine sorts_piece (hcuts.before isLocal_includeRecogniser) ?_ hbefore
        rw [Styled.chars_append, hpiece, hgap]
        simp [Cut.text]
      have hback : w.Sorts (directivesAt ([] ++ os)) (w.cutAtFiles p.piece [] os behind) :=
        ih hcuts.behind rfl hbehind fun y hy => absurd hy List.not_mem_nil
      have hall : directivesAt (before ++ o :: os) =
          directivesAt before ++ ([String.ofList o.found] ++ directivesAt ([] ++ os)) := by
        rw [directivesAt, List.map_append]
        rfl
      rw [hall]
      exact hfront.append ((Workspace.Sorts.file hbrought).append hback)

/-- The segments of a block hold its directives. -/
theorem sorts_segments {b : Block} (hb : ∀ t, b = .table t → b.directives = []) :
    w.Sorts b.directives (w.segments b) := by
  by_cases hbrings : w.bringsIn b = true
  · cases b with
    | paragraph p =>
      rw [Workspace.segments, if_pos hbrings, directives_paragraph]
      have hcut : Cut.text (includePattern.cut p.chars) = p.chars := includePattern.text_cut _
      have hcuts : includeRecogniser.Cuts
          ⟨[] ++ (includePattern.cut p.chars).occurrences, (includePattern.cut p.chars).rest⟩ :=
        congrArg includeRecogniser.cutBy hcut
      have htext : p.styled.chars = Cut.text (includePattern.cut p.chars) := by
        rw [Paragraph.chars_styled, hcut]
      have hbefore : ∀ y ∈ directivesAt [], w.brought? y = none :=
        fun y hy => absurd hy List.not_mem_nil
      exact sorts_cutAtFiles hcuts rfl htext hbefore
    | table t =>
      rw [Workspace.bringsIn, hb t rfl] at hbrings
      cases hbrings
    | object | contents | pageBreak => cases hbrings
  · have hsettled := bringsIn_eq_false_iff.mp (Bool.eq_false_iff.mpr hbrings)
    have hpart : (Part.kept b.anonymous).directives = b.directives := directives_anonymous b
    rw [segments_of_settled hsettled, ← hpart]
    rw [← hpart] at hsettled
    exact .part hsettled

theorem sorts_blocks {bs : List Block}
    (h : ∀ t, .table t ∈ bs → (Block.table t).directives = []) :
    w.Sorts (directivesOf bs) (bs.flatMap w.segments) := by
  refine Workspace.Sorts.flatMap fun b hb => sorts_segments ?_
  rintro t rfl
  exact h t hb

end Pieces

/-! ### One level -/

/-- What stands in the place of a segment after one level: a document is put
there as it is. -/
def Segment.opened : Segment → List Part
  | .part x => [x]
  | .file d => d.blocks.map fun b => .kept b.anonymous

theorem directivesOf_of_matches {parts : List Part} {bs : List Block}
    (h : List.Forall₂ Part.Matches parts bs) : directivesOf bs = parts.flatMap Part.directives := by
  induction h with
  | nil => rfl
  | cons hx _ ih =>
    rw [directivesOf, List.flatMap_cons, List.flatMap_cons, hx.directives_eq]
    exact congrArg _ ih

/-- After one level there are the directives that bring in nothing, and those
of the documents brought in. -/
theorem mem_directivesOf_opened {w : Workspace} {directives : List String}
    {segs : List Segment} {bs : List Block} (hsorts : w.Sorts directives segs)
    (hbs : List.Forall₂ Part.Matches (segs.flatMap Segment.opened) bs) {y : String} :
    y ∈ directivesOf bs ↔ (y ∈ directives ∧ w.brought? y = none) ∨
      ∃ z ∈ directives, ∃ d, w.brought? z = some d ∧ y ∈ directivesOf d.blocks := by
  have hopened : ∀ d : Document,
      y ∈ (Segment.file d).opened.flatMap Part.directives ↔ y ∈ directivesOf d.blocks := by
    intro d
    rw [Segment.opened, List.flatMap_map, directivesOf]
    simp only [Part.directives, directives_anonymous]
  rw [directivesOf_of_matches hbs, List.flatMap_assoc, List.mem_flatMap, ← hsorts.kept y]
  constructor
  · rintro ⟨seg, hseg, hy⟩
    cases seg with
    | part x => exact .inl ⟨x, hseg, by simpa [Segment.opened] using hy⟩
    | file d =>
      obtain ⟨z, hz, hd⟩ := (hsorts.files d).mp hseg
      exact .inr ⟨z, hz, d, hd, (hopened d).mp hy⟩
  · rintro (⟨x, hx, hy⟩ | ⟨z, hz, d, hd, hy⟩)
    · exact ⟨.part x, hx, by simpa [Segment.opened] using hy⟩
    · exact ⟨.file d, (hsorts.files d).mpr ⟨z, hz, hd⟩, (hopened d).mpr hy⟩

theorem exists_of_mem_cutAtFiles {w : Workspace} {put : Styled → List Segment} {x : Part}
    {piece text : Styled} {os : List Occurrence}
    (h : .part x ∈ w.cutAtFiles put piece os text) : ∃ t, .part x ∈ put t := by
  induction os generalizing piece text with
  | nil => exact ⟨_, h⟩
  | cons o os ih =>
    rw [Workspace.cutAtFiles] at h
    split at h
    · exact ih h
    · rcases List.mem_append.mp h with h | h
      · exact ⟨_, h⟩
      · rcases List.mem_cons.mp h with h | h
        · cases h
        · exact ih h

/-- A block that is kept is the block itself. -/
theorem eq_of_kept_mem_segments {w : Workspace} {a b : Block}
    (h : .part (.kept a) ∈ w.segments b) : a = b.anonymous := by
  by_cases hbrings : w.bringsIn b = true
  · cases b with
    | paragraph p =>
      rw [Workspace.segments, if_pos hbrings] at h
      obtain ⟨t, ht⟩ := exists_of_mem_cutAtFiles h
      unfold Paragraph.piece at ht
      split at ht
      · cases ht
      · cases List.mem_singleton.mp ht
    | table | object | contents | pageBreak =>
      exact Part.kept.inj (Segment.part.inj (List.mem_singleton.mp h))
  · rw [segments_of_settled (bringsIn_eq_false_iff.mp (Bool.eq_false_iff.mpr hbrings))] at h
    exact Part.kept.inj (Segment.part.inj (List.mem_singleton.mp h))

theorem exists_of_mem_forall₂ {α β : Type} {R : α → β → Prop} {l : List α} {m : List β} {b : β}
    (h : List.Forall₂ R l m) (hb : b ∈ m) : ∃ a ∈ l, R a b := by
  induction h with
  | nil => cases hb
  | cons ha _ ih =>
    rcases List.mem_cons.mp hb with rfl | hb
    · exact ⟨_, List.mem_cons_self, ha⟩
    · obtain ⟨a, ha, hR⟩ := ih hb
      exact ⟨a, List.mem_cons_of_mem _ ha, hR⟩

/-- A table after one level is one that was there before, or one of a document
brought in. -/
theorem exists_table_of_opened {w : Workspace} {bs bs' : List Block}
    (h : List.Forall₂ Part.Matches ((bs.flatMap w.segments).flatMap Segment.opened) bs')
    {t : Table} (ht : .table t ∈ bs') :
    ∃ b, b.anonymous = (Block.table t).anonymous ∧
      (b ∈ bs ∨ ∃ d, .file d ∈ bs.flatMap w.segments ∧ b ∈ d.blocks) := by
  obtain ⟨x, hx, hmatches⟩ := exists_of_mem_forall₂ h ht
  obtain ⟨seg, hseg, hx⟩ := List.mem_flatMap.mp hx
  cases x with
  | piece style level text =>
    obtain ⟨p, hp, -⟩ := hmatches
    cases hp
  | kept a =>
    obtain rfl : (Block.table t).anonymous = a := hmatches
    cases seg with
    | part y =>
      obtain rfl := List.mem_singleton.mp hx
      obtain ⟨b, hb, hsegments⟩ := List.mem_flatMap.mp hseg
      exact ⟨b, (eq_of_kept_mem_segments hsegments).symm, .inl hb⟩
    | file d =>
      obtain ⟨b, hb, he⟩ := List.mem_map.mp hx
      exact ⟨b, Part.kept.inj he, .inr ⟨d, hseg, hb⟩⟩

/-- What a block matches does not depend on its id or name. -/
theorem Part.Matches.of_anonymous {x : Part} {b r : Block} (h : x.Matches b)
    (hr : r.anonymous = b.anonymous) : x.Matches r := by
  cases x with
  | kept a => exact hr.trans h
  | piece style level text =>
    obtain ⟨p, rfl, rfl, rfl, rfl⟩ := h
    cases r with
    | paragraph q =>
      have hq : ({ q with id := 0 } : Paragraph) = { p with id := 0 } := Block.paragraph.inj hr
      exact ⟨q, rfl, (congrArg Paragraph.style hq :), (congrArg Paragraph.level hq :),
        (congrArg Paragraph.styled hq :)⟩
    | table | object | contents | pageBreak => cases hr

theorem map_anonymous_of_matches {bs bs' : List Block}
    (h : List.Forall₂ Part.Matches (bs.map fun b => .kept b.anonymous) bs') :
    bs'.map Block.anonymous = bs.map Block.anonymous := by
  rw [List.forall₂_map_left_iff] at h
  induction h with
  | nil => rfl
  | cons hb _ ih =>
    rw [List.map_cons, List.map_cons, ih]
    exact congrArg (· :: _) hb

theorem exists_of_forall₂_append {α β : Type} {R : α → β → Prop} {l l' : List α} {m : List β}
    (h : List.Forall₂ R (l ++ l') m) :
    ∃ u u', List.Forall₂ R l u ∧ List.Forall₂ R l' u' ∧ m = u ++ u' := by
  induction l generalizing m with
  | nil => exact ⟨[], m, .nil, h, rfl⟩
  | cons a l ih =>
    cases h with
    | cons ha h =>
      obtain ⟨u, u', hu, hu', rfl⟩ := ih h
      exact ⟨_ :: u, u', .cons ha hu, hu', rfl⟩

theorem matches_of_map_anonymous {bs bs' : List Block}
    (h : bs'.map Block.anonymous = bs.map Block.anonymous) :
    List.Forall₂ Part.Matches (bs.map fun b => .kept b.anonymous) bs' := by
  have hparts : (bs.map fun b => Part.kept b.anonymous) = bs'.map fun b => .kept b.anonymous := by
    have hkept := congrArg (List.map Part.kept) h
    rw [List.map_map, List.map_map] at hkept
    exact hkept.symm
  rw [hparts, List.forall₂_map_left_iff, List.forall₂_same]
  exact fun b _ => rfl

/-- To inline what is there after one level is to inline from the beginning. -/
theorem Workspace.Inlines.of_opened {w : Workspace} {segs : List Segment} {bs result : List Block}
    {parts : List Part} (hsettled : ∀ x, .part x ∈ segs → x.Settled w)
    (hbs : List.Forall₂ Part.Matches (segs.flatMap Segment.opened) bs)
    (h : w.Inlines (bs.flatMap w.segments) parts)
    (hresult : List.Forall₂ Part.Matches parts result) :
    ∃ parts', w.Inlines segs parts' ∧ List.Forall₂ Part.Matches parts' result := by
  induction segs generalizing bs parts result with
  | nil =>
    cases hbs
    cases h
    exact ⟨[], .nil, hresult⟩
  | cons seg segs ih =>
    have hsettled' : ∀ x, .part x ∈ segs → x.Settled w :=
      fun x hx => hsettled x (List.mem_cons_of_mem _ hx)
    cases seg with
    | part x =>
      -- a settled part is kept from here on
      cases hbs with
      | cons hx hbs =>
        rename_i b bs
        have hb : ∀ y ∈ b.directives, w.brought? y = none := by
          rw [hx.directives_eq]
          exact hsettled x List.mem_cons_self
        rw [List.flatMap_cons, segments_of_settled hb] at h
        cases h with
        | part h =>
          cases hresult with
          | cons hr hresult =>
            obtain ⟨parts', hparts', hmatches⟩ := ih hsettled' hbs h hresult
            exact ⟨x :: parts', .part hparts', .cons (hx.of_anonymous hr) hmatches⟩
    | file d =>
      -- the blocks put in the place of the document are its own
      obtain ⟨inner, bs', hinner, hbs', rfl⟩ := exists_of_forall₂_append hbs
      rw [List.flatMap_append, flatMap_segments_congr w (map_anonymous_of_matches hinner)] at h
      obtain ⟨front, back, rfl, hfront, hback⟩ := h.exists_of_append
      obtain ⟨r, r', hr, hr', rfl⟩ := exists_of_forall₂_append hresult
      obtain ⟨parts', hparts', hmatches⟩ := ih hsettled' hbs' hback hr'
      exact ⟨front ++ parts', .file hfront hparts', List.rel_append hr hmatches⟩

end Compositor
