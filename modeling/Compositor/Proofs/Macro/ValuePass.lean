/-
# One pass for values and tables of contents

The pass goes from occurrence to occurrence and edits the document each time.
All the same it makes of the document what the table and the title make of it
at once: block by block, what the pass has gone through has the images of
what was there, and what is still before it is as it was found. A paragraph
that is not cut has one image, with the text that a cell would have.

Key theorems: `walk_cells_ends`, `rewrite_block_ends`, `matches_of_uncut`,
`rewrite_blocks_ends`, `valuePass_rewrites`.
-/
import Compositor.Proofs.Macro.Advances
import Compositor.Proofs.Macro.CellCursor
import Compositor.Proofs.Macro.PieceCursor

namespace Compositor
open Text

namespace Macro
open Job Document

/-! ### A table -/

/-- The texts found in a cell. -/
def foundAt (c : Cell) : List (List Char) :=
  (macroPattern.cut c.content.toList).occurrences.map Occurrence.found

theorem tokens_of_cut (text : List Char) :
    ∀ o ∈ (macroPattern.cut text).occurrences, ReadsAsToken o.found :=
  fun _ ho => findsTokens_macroPattern text _ (List.mem_map_of_mem ho)

/-- A walk through some cells of a table rewrites them, one after the other. -/
theorem walk_cells_ends {table : LookupTable} {title : String} {before after : List Block}
    {t : Table} {todo : List (CellPosition × Cell)} {s : Session} {k : Walk}
    (hd : s.document.Numbered) (hk : k.handlers = (valuePass table title).handlers)
    (hb : s.document.bare = before ++ .table t :: after)
    (htodo : ∀ c ∈ todo, t.cell? c.1 = some c.2) (hapart : todo.Pairwise fun c c' => c.1 ≠ c'.1)
    (hfollow : ∀ c ∈ todo, ∀ o ∈ foundIn macroPattern t.id (some c.1) c.2.content.toList,
      o.1.follow k.edits = some o.1) (total : Nat) :
    (((todo.flatMap fun c => foundIn macroPattern t.id (some c.1) c.2.content.toList).map
        Prod.fst).foldlM (Walk.visit total) k).Ends s
      (fun k' s' => Walk.Answers table (todo.flatMap fun c => foundAt c.2) s s' k k' ∧
        (∃ t', s'.document.bare = before ++ .table t' :: after ∧
          t.AlikeBut (todo.map Prod.fst) t' ∧
          ∀ c ∈ todo, t'.cell? c.1 = some (c.2.rewritten table title)) ∧
        ∀ r r' : TextRange, r.follow k.edits = some r' → r'.block ≠ t.id →
          r.follow k'.edits = some r')
      (fun _ => False) := by
  induction todo generalizing s k t with
  | nil => exact ends_pure ⟨.nil hd, ⟨t, hb, .refl t, by simp⟩, fun r r' hr _ => hr⟩
  | cons c todo ih =>
    obtain ⟨place, cell⟩ := c
    obtain ⟨hhere, hapart'⟩ := List.pairwise_cons.mp hapart
    have hcursor : CellCursor table title before after t place cell []
        (macroPattern.cut cell.content.toList)
        ((foundIn macroPattern t.id (some place) cell.content.toList).map Prod.fst) s k := by
      refine ⟨hd, hk, hb, ?_, tokens_of_cut _, map_follow_foundIn (hfollow _ List.mem_cons_self)⟩
      rw [List.nil_append, Pattern.text_cut, String.ofList_toList]
      exact htodo _ List.mem_cons_self
    rw [List.flatMap_cons, List.map_append, List.foldlM_append]
    refine ends_bind ((walk_cell_ends hcursor total).mono (fun k' s' h => ?_) fun _ => id)
    obtain ⟨hanswers, ⟨t', hblocks, halike, hcell⟩, helsewhere⟩ := h
    have hother : ∀ c ∈ todo, c.1 ∉ [place] := by
      intro c hc hmem
      exact hhere c hc (List.mem_singleton.mp hmem).symm
    have htodo' : ∀ c ∈ todo, t'.cell? c.1 = some c.2 := by
      intro c hc
      rw [halike.others c.1 (hother c hc)]
      exact htodo c (List.mem_cons_of_mem _ hc)
    have hfollow' : ∀ c ∈ todo, ∀ o ∈ foundIn macroPattern t'.id (some c.1) c.2.content.toList,
        o.1.follow k'.edits = some o.1 := by
      intro c hc o ho
      rw [halike.id] at ho
      refine helsewhere o.1 o.1 (hfollow c (List.mem_cons_of_mem _ hc) o ho) ?_
      rintro ⟨-, hplace⟩
      rw [(slice?_of_mem_foundIn ho).2.1] at hplace
      exact hhere c hc (Option.some.inj hplace).symm
    have hrest := ih hanswers.numbered (hanswers.handlers.trans hk) hblocks htodo' hapart' hfollow'
    rw [halike.id] at hrest
    refine hrest.mono (fun k'' s'' h' => ?_) fun _ => id
    obtain ⟨hanswers', ⟨t'', hblocks', halike', hcells⟩, helsewhere'⟩ := h'
    refine ⟨hanswers.append hanswers', ⟨t'', hblocks', ?_, ?_⟩, fun r r' hr hne => ?_⟩
    · refine (halike.mono fun p hp => ?_).trans (halike'.mono fun p hp => ?_)
      · exact List.mem_cons.mpr (.inl (List.mem_singleton.mp hp))
      · exact List.mem_cons_of_mem place hp
    · rintro c (_ | ⟨_, hc⟩)
      · rw [halike'.others place fun hmem => ?_]
        · exact hcell
        · obtain ⟨c, hc, hplace⟩ := List.mem_map.mp hmem
          exact hhere c hc hplace.symm
      · exact hcells c hc
    · exact helsewhere' r r' (helsewhere r r' hr fun haddress => hne haddress.1) hne

theorem map_snd_found_table (t : Table) :
    ((Block.table t).found macroPattern).map Prod.snd = t.cells.flatMap fun c => foundAt c.2 := by
  rw [Block.found, List.map_flatMap]
  simp only [map_snd_foundIn]
  rfl

/-! ### A paragraph that is not cut -/

section Uncut

variable {table : LookupTable} {title : String}

theorem answers_of_stays {os : List Occurrence} {text : Styled}
    (h : (table.stretches os text).all (·.answer = .stays) = true) :
    ∀ o ∈ os, table.answer o.found = .stays := by
  induction os generalizing text with
  | nil => exact fun o ho => nomatch ho
  | cons o os ih =>
    rw [LookupTable.stretches, List.all_cons, List.all_cons, Bool.and_eq_true,
      Bool.and_eq_true] at h
    obtain ⟨-, hanswer, hrest⟩ := h
    rintro o' (_ | ⟨_, ho'⟩)
    · exact of_decide_eq_true hanswer
    · exact ih hrest o' ho'

theorem chars_put {found : Styled} {x : List Char} (hfound : found.chars = x)
    (h : table.answer x ≠ .contents) :
    (Stretch.put ⟨found, table.answer x⟩).chars = table.replacement title x := by
  unfold Stretch.put LookupTable.replacement
  cases hanswer : table.answer x with
  | stays => exact hfound
  | value text => exact found.chars_inFormatOf text.toList
  | contents => exact absurd hanswer h

theorem chars_putOf_stretches {os : List Occurrence} {text : Styled} {rest : List Char}
    (htext : text.chars = Cut.text ⟨os, rest⟩) (h : ∀ o ∈ os, table.answer o.found ≠ .contents) :
    (putOf (table.stretches os text)).chars = table.replaced title os ++ rest := by
  induction os generalizing text with
  | nil =>
    rw [LookupTable.stretches, putOf_singleton]
    exact htext
  | cons o os ih =>
    obtain ⟨gap, found, behind, rfl, hgap, hfound, hbehind⟩ := exists_of_text_cons htext
    have hput : (Stretch.put ⟨found, table.answer o.found⟩).chars =
        table.replacement title o.found := chars_put hfound (h o List.mem_cons_self)
    have hrest := ih hbehind fun o' ho' => h o' (List.mem_cons_of_mem o ho')
    rw [stretches_cons hgap hfound, putOf, List.flatMap_cons, List.flatMap_cons,
      Styled.chars_append, Styled.chars_append, hput, ← putOf, hrest, LookupTable.replaced,
      LookupTable.replaced, List.flatMap_cons, List.append_assoc, List.append_assoc, ← hgap]
    rfl

theorem answer_of_mem_stretches {os : List Occurrence} {text : Styled}
    (h : ∀ o ∈ os, table.answer o.found ≠ .contents) :
    ∀ x ∈ table.stretches os text, x.answer ≠ .contents := by
  induction os generalizing text with
  | nil =>
    intro x hx
    obtain rfl := List.mem_singleton.mp hx
    exact nofun
  | cons o os ih =>
    rintro x (_ | ⟨_, _ | ⟨_, hx⟩⟩)
    · exact nofun
    · exact h o List.mem_cons_self
    · exact ih (fun o' ho' => h o' (List.mem_cons_of_mem o ho')) x hx

theorem imagesFrom_of_uncut {image : Option Nat → List Stretch → Image} {xs : List Stretch}
    (h : ∀ x ∈ xs, x.answer ≠ .contents) (id : Nat) (piece : List Stretch) :
    imagesFrom title image (some id) piece xs = [image (some id) (piece ++ xs)] := by
  induction xs generalizing piece with
  | nil =>
    rw [List.append_nil]
    rfl
  | cons x xs ih =>
    rw [imagesFrom_cons_of_stays (h x List.mem_cons_self),
      ih fun y hy => h y (List.mem_cons_of_mem x hy), List.append_assoc]
    rfl

/-- Where every occurrence stays, the text does. -/
theorem rewrite_of_stays {s : List Char}
    (h : ∀ o ∈ (macroPattern.cut s).occurrences, table.answer o.found = .stays) :
    table.rewrite title s = s := by
  have hreplaced : table.replaced title (macroPattern.cut s).occurrences =
      (macroPattern.cut s).occurrences.flatMap fun o => o.gap ++ o.found := by
    refine List.flatMap_congr fun o ho => ?_
    rw [LookupTable.replacement, h o ho]
  rw [LookupTable.rewrite, hreplaced]
  exact macroPattern.text_cut s

/-- A paragraph without a token for a table of contents is rewritten as a cell
is, and keeps its id, its style and its level. -/
theorem matches_of_uncut {p : Paragraph} {bs : List Block}
    (hp : contentsToken.chars ∉ (macroPattern.cut p.chars).occurrences.map Occurrence.found)
    (h : List.Forall₂ Image.Matches ((Block.paragraph p).images table title) bs) :
    ∃ q : Paragraph, bs = [.paragraph q] ∧ q.id = p.id ∧ q.style = p.style ∧ q.level = p.level ∧
      q.chars = table.rewrite title p.chars := by
  have hanswers : ∀ o ∈ (macroPattern.cut p.chars).occurrences,
      table.answer o.found ≠ .contents := by
    intro o ho hcontents
    refine hp ?_
    rw [← answer_eq_contents hcontents]
    exact List.mem_map_of_mem ho
  have htext : p.styled.chars = Cut.text (macroPattern.cut p.chars) := by
    rw [Paragraph.chars_styled, Pattern.text_cut]
  rw [Block.images] at h
  by_cases hstays : (table.stretchesOf p).all (·.answer = .stays) = true
  · rw [if_pos hstays] at h
    obtain ⟨b, _, hb, ⟨⟩, rfl⟩ := List.forall₂_cons_left_iff.mp h
    obtain rfl : b = .paragraph p := Block.eq_of_bare_eq hb rfl
    exact ⟨p, rfl, rfl, rfl, rfl, (rewrite_of_stays (answers_of_stays hstays)).symm⟩
  · rw [if_neg hstays, LookupTable.stretchesOf,
      imagesFrom_of_uncut (answer_of_mem_stretches hanswers)] at h
    obtain ⟨b, _, ⟨q, rfl, hid, hstyle, hlevel, hstyled⟩, ⟨⟩, rfl⟩ :=
      List.forall₂_cons_left_iff.mp h
    refine ⟨q, rfl, hid p.id rfl, hstyle, hlevel, ?_⟩
    rw [← Paragraph.chars_styled, hstyled]
    exact chars_putOf_stretches htext hanswers

end Uncut

/-! ### A block -/

section Blocks

variable {table : LookupTable} {title : String} {s : Session} {k : Walk}

theorem rewrite_block_ends {before after : List Block} {b : Block} (hd : s.document.Numbered)
    (hk : k.handlers = (valuePass table title).handlers)
    (hb : s.document.bare = before ++ b.bare :: after)
    (hfollow : ∀ o ∈ b.found macroPattern, o.1.follow k.edits = some o.1) (total : Nat) :
    (((b.found macroPattern).map Prod.fst).foldlM (Walk.visit total) k).Ends s
      (fun k' s' => Walk.Rewrites table before after b.id? ((b.found macroPattern).map Prod.snd)
        (b.images table title) s s' k k')
      (fun _ => False) := by
  cases b with
  | object | contents | pageBreak =>
    refine ends_pure ⟨.nil hd, ⟨[_], ?_, .cons (Block.bare_bare _) .nil⟩, fun r r' hr _ _ => hr⟩
    rw [hb, List.append_assoc]
    rfl
  | table t =>
    have hapart := t.pairwise_cells
    have hcells : ∀ c ∈ t.cells, t.cell? c.1 = some c.2 := fun c hc => Table.mem_cells_iff.mp hc
    have hfollow' : ∀ c ∈ t.cells, ∀ o ∈ foundIn macroPattern t.id (some c.1) c.2.content.toList,
        o.1.follow k.edits = some o.1 :=
      fun c hc o ho => hfollow o (List.mem_flatMap.mpr ⟨c, hc, ho⟩)
    refine (walk_cells_ends hd hk hb hcells hapart hfollow' total).mono (fun k' s' h => ?_)
      fun _ => id
    obtain ⟨hanswers, ⟨t', hblocks, halike, hrewritten⟩, helsewhere⟩ := h
    obtain rfl := halike.eq_mapCells fun place cell hc => hrewritten (place, cell) hc
    rw [map_snd_found_table]
    refine ⟨hanswers, ⟨[_], ?_, .cons rfl .nil⟩, fun r r' hr hne _ => ?_⟩
    · rw [hblocks, List.append_assoc]
      rfl
    · exact helsewhere r r' hr fun he => hne (congrArg some he.symm)
  | paragraph p =>
    have hcursor : PieceCursor table title before after p (some p.id) [] p.styled
        (macroPattern.cut p.chars) (((Block.paragraph p).found macroPattern).map Prod.fst) s k := by
      refine ⟨hd, hk, hb, fun id hid => Option.some.inj hid, rfl, ?_, tokens_of_cut _,
        (nomatch ·), map_follow_foundIn hfollow⟩
      rw [Paragraph.chars_styled, Pattern.text_cut]
    have hfound : ((Block.paragraph p).found macroPattern).map Prod.snd =
        (macroPattern.cut p.chars).occurrences.map Occurrence.found := map_snd_foundIn _ _ _ _
    rw [hfound]
    refine (walk_paragraph_ends hcursor total).mono (fun k' s' h => ?_) fun _ => id
    obtain ⟨hrewrites, hsame⟩ := h
    by_cases hstays : (table.stretchesOf p).all (·.answer = .stays) = true
    · -- the paragraph is as it was
      have hdoc := hsame (answers_of_stays hstays)
      rw [Block.images, if_pos hstays]
      refine ⟨hrewrites.toAnswers, ⟨[.paragraph p], ?_, .cons rfl .nil⟩, hrewrites.elsewhere⟩
      rw [hdoc, hb, List.append_assoc]
      rfl
    · rw [Block.images, if_neg hstays]
      exact hrewrites

/-! ### All blocks -/

theorem rewrite_blocks_ends {done todo : List Block} (hd : s.document.Numbered)
    (hk : k.handlers = (valuePass table title).handlers)
    (hb : s.document.bare = done ++ todo.map Block.bare)
    (hfollow : ∀ b ∈ todo, ∀ o ∈ b.found macroPattern, o.1.follow k.edits = some o.1)
    (total : Nat) :
    (((todo.flatMap (Block.found macroPattern)).map Prod.fst).foldlM (Walk.visit total) k).Ends s
      (fun k' s' =>
        Walk.Answers table ((todo.flatMap (Block.found macroPattern)).map Prod.snd) s s' k k' ∧
        ∃ bs, s'.document.bare = done ++ bs ∧
          List.Forall₂ Image.Matches (todo.flatMap (Block.images table title)) bs)
      (fun _ => False) := by
  induction todo generalizing s k done with
  | nil => exact ends_pure ⟨.nil hd, [], hb, .nil⟩
  | cons b todo ih =>
    rw [List.flatMap_cons, List.map_append, List.foldlM_append]
    refine ends_bind ((rewrite_block_ends hd hk hb (hfollow b List.mem_cons_self) total).mono
      (fun k' s' h => ?_) fun _ => id)
    obtain ⟨bs, hbs, hmatches⟩ := h.blocks
    have hfollow' : ∀ b' ∈ todo, ∀ o ∈ b'.found macroPattern, o.1.follow k'.edits = some o.1 := by
      intro b' hb' o ho
      have hid : b'.bare.id? = some o.1.block := b'.id?_bare.trans (id?_of_mem_found ho)
      have hbehind : b'.bare ∈ todo.map Block.bare := List.mem_map_of_mem hb'
      have hmem : b'.bare ∈ s.document.bare := by
        rw [hb, List.map_cons]
        exact List.mem_append_right _ (List.mem_cons_of_mem _ hbehind)
      refine h.elsewhere o.1 o.1 (hfollow b' (List.mem_cons_of_mem _ hb') o ho) (fun he => ?_)
        (hd.lt_freshId_of_bare hmem hid)
      exact hd.id?_ne_of_bare hb (b.id?_bare.trans he) b'.bare (List.mem_append_right _ hbehind) hid
    refine (ih h.numbered (h.handlers.trans hk) hbs hfollow').mono (fun k'' s'' h' => ?_)
      fun _ => id
    obtain ⟨hanswers, bs', hbs', hmatches'⟩ := h'
    rw [List.flatMap_cons, List.map_append]
    refine ⟨h.toAnswers.append hanswers, bs ++ bs', ?_, List.rel_append hmatches hmatches'⟩
    rw [hbs', List.append_assoc]

/-- An image says nothing of the entries of a table of contents. -/
theorem matches_of_bare {images : List Image} {d : Document}
    (h : List.Forall₂ Image.Matches images d.bare) :
    List.Forall₂ Image.Matches images d.blocks := by
  refine (List.forall₂_map_right_iff.mp h).imp fun image b hb => ?_
  cases image with
  | kept a => exact b.bare_bare.symm.trans hb
  | piece id? style level text =>
    obtain ⟨p, hp, hpiece⟩ := hb
    exact ⟨p, Block.eq_of_bare_eq hp rfl, hpiece⟩

/-- **A pass for values rewrites at once.** It comes to an end, and the blocks
are the images of those before: the tokens that the table answers are replaced
in each cell and in each piece of a paragraph, and paragraphs are cut at the
tokens for tables of contents. A paragraph without such a token keeps its id,
its style and its level, and its text is rewritten as that of a cell. The
warnings are those about the occurrences of the document as it was, in their
order. -/
theorem valuePass_rewrites (table : LookupTable) (title : String) (s : Session)
    (h : s.document.Numbered) :
    ∃ report s', (valuePass table title).run.run s = .ok report s' ∧
      List.Forall₂ Image.Matches (s.document.blocks.flatMap (Block.images table title))
        s'.document.blocks ∧
      (∀ p, .paragraph p ∈ s.document.blocks →
        contentsToken.chars ∉ (macroPattern.cut p.chars).occurrences.map Occurrence.found →
        ∃ q, .paragraph q ∈ s'.document.blocks ∧ q.id = p.id ∧ q.style = p.style ∧
          q.level = p.level ∧ q.chars = table.rewrite title p.chars) ∧
      s'.document.Numbered ∧
      s'.document.title = s.document.title ∧ s'.document.metadata = s.document.metadata ∧
      s'.journal = s.journal.note
        (((s.document.found macroPattern).map Prod.snd).flatMap table.warnings) := by
  have hpass := processAll_eq_foldlM (s.document.search macroPattern).length
    ((valuePass table title).start (s.document.search macroPattern).length)
    (s.document.search macroPattern)
  have hrun := congrArg (fun job : Job PassReport => job.run s) hpass
  have hends : (valuePass table title).run.Ends s
      (fun _ s' => List.Forall₂ Image.Matches (s.document.blocks.flatMap (Block.images table title))
          s'.document.blocks ∧
        s'.document.Numbered ∧
        s'.journal = s.journal.note
          (((s.document.found macroPattern).map Prod.snd).flatMap table.warnings))
      (fun _ => False) := by
    refine Ends.congr (show (valuePass table title).run.run s = _ from hrun) (ends_bind ?_)
    rw [← s.document.map_fst_found macroPattern]
    refine (rewrite_blocks_ends h rfl (List.nil_append _).symm (fun b _ o _ => rfl) _).mono
      (fun k' s' hwalk => ?_) fun _ => id
    obtain ⟨hanswers, bs, hbs, hmatches⟩ := hwalk
    refine ends_pure ⟨?_, hanswers.numbered, hanswers.journal⟩
    rw [List.nil_append] at hbs
    rw [← hbs] at hmatches
    exact matches_of_bare hmatches
  obtain ⟨report, s', hrun, hmatches, hnumbered, hjournal⟩ := hends.exists_ok
  have hadvances := (advances_run (valuePass table title)).ends s
  rw [Ends, hrun] at hadvances
  obtain ⟨htitle, hmetadata⟩ := Document.title_eq_of_steps hadvances.steps
  refine ⟨report, s', hrun, hmatches, fun p hmem hp => ?_, hnumbered, htitle, hmetadata, hjournal⟩
  obtain ⟨before, after, hblocks⟩ := List.append_of_mem hmem
  rw [hblocks, List.flatMap_append, List.flatMap_cons] at hmatches
  obtain ⟨_, rest, -, hrest, hout⟩ := exists_of_forall₂_append hmatches
  obtain ⟨bs, _, hbs, -, rfl⟩ := exists_of_forall₂_append hrest
  obtain ⟨q, rfl, hq⟩ := matches_of_uncut hp hbs
  refine ⟨q, ?_, hq⟩
  rw [hout]
  simp

end Blocks

/-- A paragraph with a value that reads like a token, and a table of contents
before such a token. -/
def valueLikeToken : Session :=
  { document := .ofBlocks "Report" [.paragraph (.plain "%A% %TOC% %B%")] }

/-- The value of `A` is the token for `B`, of which there is none. -/
def tokenForA : LookupTable := { clock := ⟨2024, 5, 6, 7, 8, 9, 0⟩, statics := [("A", "%B%")] }

/-- That the ids are distinct is not enough: the token behind a table of
contents is looked for in the paragraph before it. -/
theorem valuePass_fails_overtaken :
    (Document.overtaken "A %TOC% B %A%").ids.Nodup ∧
    (valuePass tokenForA "Contents").run.Ends { document := .overtaken "A %TOC% B %A%" }
      (fun _ _ => False) (fun e => e = .stale ⟨⟨1, none, 3, 6⟩⟩) :=
  ⟨Document.nodup_ids_overtaken _, by decide +kernel⟩

/-- The value stays as it was put in, and only the token for `B` that stood in
the paragraph is warned of. -/
theorem valuePass_rewrites_valueLikeToken :
    valueLikeToken.document.Numbered ∧
    ∃ report s', (valuePass tokenForA "Contents").run.run valueLikeToken = .ok report s' ∧
      List.Forall₂ Image.Matches
        [.piece (some 1) none none (Run.plain "%B% ").styled,
          .kept (.contents { title := "Contents" }),
          .piece none none none (Run.plain " %B%").styled]
        s'.document.blocks ∧
      s'.journal.diagnostics = [⟨.unresolvedMacro, "%B%", "no substitution is defined"⟩] := by
  have hnumbered : valueLikeToken.document.Numbered :=
    Document.numbered_ofBlocks "Report" [.paragraph (.plain "%A% %TOC% %B%")]
  have himages : valueLikeToken.document.blocks.flatMap (Block.images tokenForA "Contents") =
      [.piece (some 1) none none (Run.plain "%B% ").styled,
        .kept (.contents { title := "Contents" }),
        .piece none none none (Run.plain " %B%").styled] := by
    decide +kernel
  have hwarnings : (((valueLikeToken.document.found macroPattern).map Prod.snd).flatMap
      tokenForA.warnings) = [⟨.unresolvedMacro, "%B%", "no substitution is defined"⟩] := by
    decide +kernel
  obtain ⟨report, s', hrun, hmatches, -, -, -, -, hjournal⟩ :=
    valuePass_rewrites tokenForA "Contents" valueLikeToken hnumbered
  rw [himages] at hmatches
  rw [hwarnings] at hjournal
  refine ⟨hnumbered, report, s', hrun, hmatches, ?_⟩
  rw [hjournal]
  rfl

end Macro
end Compositor
