/-
# Markdown reads back as a fragment

Each block of a fragment is written as one line: a paragraph of joined lines
as they were joined, a heading after its number signs, a formula between its
marks, and an image as the line that it was. Read back, such a line is the
block again, with the number that the tally gives it; only a paragraph may
have become an image line by joining.

Key definitions: `Fragment.Written`, `Fragment.AllWritten`,
`Block.ReadsBack`.
Key theorems: `Written.blocksOf_cons`, `Written.blocksOf_ne`,
`exists_allWritten_blocksOf`, `parse_render_markdown_iff`.
-/
import Compositor.Document.Export
import Compositor.Proofs.Document.FragmentLines
import Compositor.Proofs.Document.Numbered
import Compositor.Proofs.Text.Lines

namespace Compositor
open Text

/-- A paragraph that is no heading is not written like an image line. -/
def Block.ReadsBack (b : Block) : Prop :=
  ∀ p, b = .paragraph p → p.level = none → Fragment.image? p.chars = none

namespace Fragment

/-! ### Blocks and the lines that they are written as -/

/-- The words are those of one of the lines. -/
def IsWords (source : List (List Char)) (x : List Char) : Prop :=
  ∃ l ∈ source, Line.ofChars l = .words x

def formulaBlock (tally : Tally) (inner : List Char) : Block :=
  .object (.formula ("Formula" ++ toString (tally.formulas + 1)) (String.ofList inner))

def imageBlock (tally : Tally) (description path : List Char) : Block :=
  .object ((EmbeddedObject.image ("Image" ++ toString (tally.images + 1))
    (String.ofList description)).setProperty EmbeddedObject.pathProperty
      (.text (String.ofList path)))

/-- What a block of a fragment with the given lines can be after a tally, the
line that it is written as, and the tally after it. -/
inductive Written (source : List (List Char)) : Tally → List Char → Block → Tally → Prop
  | paragraph {tally : Tally} {ws : List (List Char)} (hne : ws ≠ [])
    (hwords : ∀ w ∈ ws, IsWords source w) (hformula : formula? (joinLines ws) = none) :
    Written source tally (joinLines ws)
      (.paragraph (.plain (String.ofList (joinLines ws)))) tally
  | heading {tally : Tally} {level : Nat} {text : List Char} (hpos : 1 ≤ level)
    (hmax : level ≤ maxLevel) (htext : Trimmed text) (hfeed : '\n' ∉ text) :
    Written source tally (List.replicate level '#' ++ ' ' :: text)
      (.paragraph (.heading level.toUInt8 (String.ofList text))) tally
  | formula {tally : Tally} {inner : List Char} (hinner : Trimmed inner) (hfeed : '\n' ∉ inner) :
    Written source tally (marked inner) (formulaBlock tally inner)
      { tally with formulas := tally.formulas + 1 }
  | image {tally : Tally} {l description path : List Char} (hl : l ∈ source)
    (hline : Line.ofChars l = .image description path) :
    Written source tally (trim l) (imageBlock tally description path)
      { tally with images := tally.images + 1 }

/-- Blocks one after the other, with the lines that they are written as. -/
inductive AllWritten (source : List (List Char)) : Tally → List (List Char) → List Block → Prop
  | nil {tally : Tally} : AllWritten source tally [] []
  | cons {tally tally' : Tally} {x : List Char} {b : Block} {xs : List (List Char)}
    {bs : List Block} (hb : Written source tally x b tally')
    (hbs : AllWritten source tally' xs bs) : AllWritten source tally (x :: xs) (b :: bs)

/-! ### Joined lines -/

section Joined

variable {source ws : List (List Char)}

theorem joinLines_cons_cons (w w' : List Char) (ws : List (List Char)) :
    joinLines (w :: w' :: ws) = w ++ ' ' :: joinLines (w' :: ws) := rfl

theorem of_isWords {w : List Char} (h : IsWords source w) :
    Trimmed w ∧ w ≠ [] ∧ heading? w = none ∧ image? w = none := by
  obtain ⟨l, -, hl⟩ := h
  obtain ⟨rfl, hne, hheading, himage⟩ := Line.of_ofChars_words hl
  exact ⟨trimmed_trim l, hne, hheading, himage⟩

theorem trimmed_joinLines (hne : ws ≠ []) (hwords : ∀ w ∈ ws, IsWords source w) :
    Trimmed (joinLines ws) ∧ joinLines ws ≠ [] := by
  induction ws with
  | nil => exact absurd rfl hne
  | cons w ws ih =>
    obtain ⟨htrimmed, hw, -, -⟩ := of_isWords (hwords w List.mem_cons_self)
    cases ws with
    | nil => exact ⟨htrimmed, hw⟩
    | cons w' ws =>
      obtain ⟨hrest, hrest'⟩ := ih (List.cons_ne_nil _ _)
        fun v hv => hwords v (List.mem_cons_of_mem _ hv)
      rw [joinLines_cons_cons]
      exact ⟨htrimmed.enclose hrest hw hrest' [' '], List.append_ne_nil_of_left_ne_nil hw _⟩

/-- Only the first line could make a heading of joined lines. -/
theorem heading?_joinLines (hne : ws ≠ []) (hwords : ∀ w ∈ ws, IsWords source w) :
    heading? (joinLines ws) = none := by
  cases ws with
  | nil => exact absurd rfl hne
  | cons w ws =>
    obtain ⟨-, -, hheading, -⟩ := of_isWords (hwords w List.mem_cons_self)
    cases ws with
    | nil => exact hheading
    | cons w' ws => exact heading?_append_space hheading _

theorem not_mem_joinLines (hsource : ∀ l ∈ source, '\n' ∉ l)
    (hwords : ∀ w ∈ ws, IsWords source w) : '\n' ∉ joinLines ws := by
  have hword : ∀ w ∈ ws, '\n' ∉ w := by
    intro w hw
    obtain ⟨l, hl, hline⟩ := hwords w hw
    obtain ⟨rfl, -⟩ := Line.of_ofChars_words hline
    exact fun hmem => hsource l hl (mem_of_mem_trim hmem)
  clear hwords
  induction ws with
  | nil => exact List.not_mem_nil
  | cons w ws ih =>
    have hw := hword w List.mem_cons_self
    cases ws with
    | nil => exact hw
    | cons w' ws =>
      rw [joinLines_cons_cons, List.mem_append, List.mem_cons, not_or, not_or]
      exact ⟨hw, by decide, ih fun v hv => hword v (List.mem_cons_of_mem _ hv)⟩

end Joined

/-! ### What a fragment is made of -/

section Blocks

variable {source : List (List Char)}

theorem exists_written_closeParagraph (hsource : ∀ l ∈ source, '\n' ∉ l) (tally : Tally)
    {collected : List (List Char)} (hne : collected ≠ [])
    (hwords : ∀ w ∈ collected, IsWords source w) :
    ∃ x b tally', closeParagraph tally collected = ([b], tally') ∧
      Written source tally x b tally' := by
  have hne' : collected.reverse ≠ [] := mt List.reverse_eq_nil_iff.mp hne
  have hwords' : ∀ w ∈ collected.reverse, IsWords source w :=
    fun w hw => hwords w (List.mem_reverse.mp hw)
  unfold closeParagraph
  rw [if_neg (mt List.isEmpty_iff.mp hne)]
  dsimp only
  cases hformula : formula? (joinLines collected.reverse) with
  | none => exact ⟨_, _, _, rfl, .paragraph hne' hwords' hformula⟩
  | some inner =>
    obtain ⟨hinner, hmem⟩ := of_formula?_eq_some hformula
    refine ⟨_, _, _, rfl, .formula hinner fun hfeed => ?_⟩
    exact not_mem_joinLines hsource hwords' (hmem _ hfeed)

/-- The paragraph at hand comes before the blocks that follow. -/
theorem exists_allWritten_append (hsource : ∀ l ∈ source, '\n' ∉ l) {tally : Tally}
    {collected : List (List Char)} (hwords : ∀ w ∈ collected, IsWords source w)
    {bs : List Block}
    (hbs : ∃ xs, AllWritten source (closeParagraph tally collected).2 xs bs) :
    ∃ xs, AllWritten source tally xs ((closeParagraph tally collected).1 ++ bs) := by
  cases collected with
  | nil => exact hbs
  | cons w ws =>
    obtain ⟨x, b, tally', hclose, hb⟩ :=
      exists_written_closeParagraph hsource tally (List.cons_ne_nil w ws) hwords
    rw [hclose] at hbs ⊢
    obtain ⟨xs, hxs⟩ := hbs
    exact ⟨x :: xs, .cons hb hxs⟩

theorem exists_allWritten_blocksOf (hsource : ∀ l ∈ source, '\n' ∉ l) (tally : Tally)
    {collected : List (List Char)} (hwords : ∀ w ∈ collected, IsWords source w)
    {ls : List (List Char)} (hls : ∀ l ∈ ls, l ∈ source) :
    ∃ xs, AllWritten source tally xs (blocksOf tally collected (ls.map Line.ofChars)) := by
  induction ls generalizing tally collected with
  | nil =>
    have h : ∃ xs, AllWritten source tally xs ((closeParagraph tally collected).1 ++ []) :=
      exists_allWritten_append hsource hwords ⟨[], .nil⟩
    rwa [List.append_nil] at h
  | cons l ls ih =>
    have hl : l ∈ source := hls l List.mem_cons_self
    have hls' : ∀ l ∈ ls, l ∈ source := fun l hl => hls l (List.mem_cons_of_mem _ hl)
    have hnone : ∀ w ∈ ([] : List (List Char)), IsWords source w := fun _ => nofun
    rw [List.map_cons]
    cases hline : Line.ofChars l with
    | blank => exact exists_allWritten_append hsource hwords (ih _ hnone hls')
    | words x =>
      refine ih tally (fun w hw => ?_) hls'
      obtain rfl | hw := List.mem_cons.mp hw
      · exact ⟨l, hl, hline⟩
      · exact hwords w hw
    | heading level text =>
      obtain ⟨hpos, hmax, htext, hmem⟩ := of_heading?_eq_some (Line.of_ofChars_heading hline)
      have hfeed : '\n' ∉ text := fun h => hsource l hl (mem_of_mem_trim (hmem _ h))
      obtain ⟨xs, hxs⟩ := ih (closeParagraph tally collected).2 hnone hls'
      exact exists_allWritten_append hsource hwords
        ⟨_, .cons (.heading hpos hmax htext hfeed) hxs⟩
    | image description path =>
      obtain ⟨xs, hxs⟩ := ih { (closeParagraph tally collected).2 with
        images := (closeParagraph tally collected).2.images + 1 } hnone hls'
      exact exists_allWritten_append hsource hwords ⟨_, .cons (.image hl hline) hxs⟩

end Blocks

/-! ### Writing a block -/

section Render

variable {source : List (List Char)} {tally tally' : Tally} {x : List Char} {b : Block}

theorem markdown_plain (text : String) : (Run.plain text).markdown = text := by
  have hmark : "" ++ text ++ "" = text := by rw [String.empty_append, String.append_empty]
  unfold Run.markdown
  split
  · rfl
  · exact hmark

theorem chars_plain (text : String) : (Paragraph.plain text).chars = text.toList :=
  List.append_nil _

theorem repeated_hash (n : Nat) : repeated n "#" = String.ofList (List.replicate n '#') := by
  rw [← String.toList_inj, repeated, String.toList_join, String.toList_ofList]
  induction n with
  | zero => rfl
  | succ n ih => rw [List.replicate_succ, List.flatMap_cons, ih, List.replicate_succ]; rfl

theorem toNat_level {level : Nat} (h : level ≤ maxLevel) : level.toUInt8.toNat = level :=
  Nat.mod_eq_of_lt (Nat.lt_of_le_of_lt h (by decide))

theorem textOrEmpty_of_get? {o : EmbeddedObject} {name text : String}
    (h : o.properties.get? name = some (.text text)) : o.textOrEmpty name = text := by
  rw [EmbeddedObject.textOrEmpty, EmbeddedObject.textProperty, EmbeddedObject.property, h]

/-- A block is written in Markdown as its line. -/
theorem Written.render_eq (h : Written source tally x b tally') :
    b.render .markdown = line (String.ofList x) := by
  cases h with
  | @paragraph ws hne hwords hformula =>
    show line (String.join [(Run.plain (String.ofList (joinLines ws))).markdown]) = _
    rw [markdown_plain]
    rfl
  | @heading level text hpos hmax htext hfeed =>
    have htext' : (Paragraph.heading level.toUInt8 (String.ofList text)).text =
        String.ofList text := by
      simp [Paragraph.text, Paragraph.chars, Paragraph.heading, Run.plain, Run.chars]
    show line (repeated level.toUInt8.toNat "#" ++ " " ++ Paragraph.text _) = _
    rw [htext', toNat_level hmax, repeated_hash, ← String.toList_inj]
    simp [line]
  | @formula inner hinner hfeed =>
    show line ("$$ " ++ EmbeddedObject.textOrEmpty _ _ ++ " $$") = _
    rw [textOrEmpty_of_get? (PropertyBag.get?_insert _ _ _), ← String.toList_inj]
    simp [line, marked]
  | @image l description path hl hline =>
    have hother : EmbeddedObject.descriptionProperty ≠ EmbeddedObject.pathProperty := by decide
    have hdescription := PropertyBag.get?_insert PropertyBag.empty
      EmbeddedObject.descriptionProperty (.text (String.ofList description))
    rw [← PropertyBag.get?_insert_of_ne _ (.text (String.ofList path)) hother] at hdescription
    show line ("![" ++ EmbeddedObject.textOrEmpty _ _ ++ "](" ++ EmbeddedObject.textOrEmpty _ _
      ++ ")") = _
    rw [textOrEmpty_of_get? hdescription, textOrEmpty_of_get? (PropertyBag.get?_insert _ _ _),
      eq_of_image? (Line.of_ofChars_image hline), ← String.toList_inj]
    simp [line]

/-- The line is one line of a text. -/
theorem Written.isLine (hsource : ∀ l ∈ source, '\n' ∉ l) (h : Written source tally x b tally') :
    '\n' ∉ x ∧ x.getLast? ≠ some '\r' := by
  have hend : ∀ {s : List Char}, Trimmed s → s.getLast? ≠ some '\r' :=
    fun hs hlast => absurd (hs.last _ hlast) (by decide)
  cases h with
  | paragraph hne hwords hformula =>
    exact ⟨not_mem_joinLines hsource hwords, hend (trimmed_joinLines hne hwords).1⟩
  | @heading level text hpos hmax htext hfeed =>
    refine ⟨?_, fun hlast => ?_⟩
    · rw [List.mem_append, List.mem_cons, not_or, not_or]
      exact ⟨fun hmem => absurd (List.eq_of_mem_replicate hmem) (by decide), by decide, hfeed⟩
    · rw [List.getLast?_append, List.getLast?_cons, Option.some_or] at hlast
      cases hlast' : text.getLast? with
      | none =>
        rw [hlast'] at hlast
        exact absurd hlast (by decide)
      | some c =>
        rw [hlast', Option.getD_some] at hlast
        rw [hlast] at hlast'
        exact hend htext hlast'
  | @formula inner hinner hfeed =>
    refine ⟨?_, hend (trimmed_marked inner)⟩
    simp [marked, hfeed]
  | image hl hline =>
    exact ⟨fun hmem => hsource _ hl (mem_of_mem_trim hmem), hend (trimmed_trim _)⟩

end Render

/-! ### Reading a line back -/

section Reading

variable {source : List (List Char)} {tally tally' : Tally} {x : List Char} {b : Block}

theorem closeParagraph_singleton (tally : Tally) (x : List Char) :
    closeParagraph tally [x] =
      match formula? x with
      | some inner =>
        ([formulaBlock tally inner], { tally with formulas := tally.formulas + 1 })
      | none => ([.paragraph (.plain (String.ofList x))], tally) :=
  rfl

theorem blocksOf_words_blank (tally : Tally) (x : List Char) (rest : List Line) :
    blocksOf tally [] (.words x :: .blank :: rest) =
      (closeParagraph tally [x]).1 ++ blocksOf (closeParagraph tally [x]).2 [] rest :=
  rfl

theorem blocksOf_image_blank (tally : Tally) (description path : List Char) (rest : List Line) :
    blocksOf tally [] (.image description path :: .blank :: rest) =
      imageBlock tally description path ::
        blocksOf { tally with images := tally.images + 1 } [] rest :=
  rfl

/-- A line that a block is written as is the block, if the block reads back,
and the lines after it are read with the tally after the block. -/
theorem Written.blocksOf_cons (h : Written source tally x b tally') (hb : b.ReadsBack)
    (rest : List Line) :
    blocksOf tally [] (Line.ofChars x :: .blank :: rest) = b :: blocksOf tally' [] rest := by
  cases h with
  | @paragraph ws hne hwords hformula =>
    obtain ⟨htrimmed, hnonempty⟩ := trimmed_joinLines hne hwords
    have himage := hb _ rfl rfl
    rw [chars_plain, String.toList_ofList] at himage
    rw [Line.ofChars_of_words htrimmed hnonempty (heading?_joinLines hne hwords) himage,
      blocksOf_words_blank, closeParagraph_singleton, hformula]
    rfl
  | heading hpos hmax htext hfeed =>
    rw [Line.ofChars_hashes hpos hmax htext]
    rfl
  | formula hinner hfeed =>
    rw [Line.ofChars_marked, blocksOf_words_blank, closeParagraph_singleton,
      formula?_marked hinner]
    rfl
  | image hl hline => rw [Line.ofChars_trim, hline, blocksOf_image_blank]

/-- A block that does not read back is a paragraph, and its line is an
image. -/
theorem Written.blocksOf_ne (h : Written source tally x b tally') (hb : ¬ b.ReadsBack)
    (rest : List Line) (bs : List Block) :
    blocksOf tally [] (Line.ofChars x :: .blank :: rest) ≠ b :: bs := by
  cases h with
  | @paragraph ws hne hwords hformula =>
    obtain ⟨htrimmed, hnonempty⟩ := trimmed_joinLines hne hwords
    cases himage : image? (joinLines ws) with
    | none =>
      refine absurd (fun p hp _ => ?_) hb
      rw [← Block.paragraph.inj hp, chars_plain, String.toList_ofList]
      exact himage
    | some found =>
      rw [Line.ofChars_of_image htrimmed hnonempty (heading?_joinLines hne hwords) himage,
        blocksOf_image_blank]
      exact fun heq => nomatch (List.cons.inj heq).1
  | heading hpos hmax htext hfeed =>
    refine absurd (fun p hp hlevel => ?_) hb
    rw [← Block.paragraph.inj hp] at hlevel
    cases hlevel
  | formula hinner hfeed => exact absurd (fun _ => nofun) hb
  | image hl hline => exact absurd (fun _ => nofun) hb

/-- Written line by line with blank lines between, the blocks are read as they
are exactly if all of them read back. -/
theorem AllWritten.blocksOf_eq_iff {xs : List (List Char)} {bs : List Block}
    (h : AllWritten source tally xs bs) :
    blocksOf tally [] (xs.flatMap fun x => [Line.ofChars x, .blank]) = bs ↔
      ∀ b ∈ bs, b.ReadsBack := by
  induction h with
  | nil => exact ⟨fun _ _ hb => absurd hb List.not_mem_nil, fun _ => rfl⟩
  | @cons _ _ x b xs bs hb hbs ih =>
    rw [List.flatMap_cons, List.cons_append, List.singleton_append, List.forall_mem_cons, ← ih]
    by_cases hreads : b.ReadsBack
    · rw [hb.blocksOf_cons hreads, List.cons_eq_cons]
      exact ⟨fun heq => ⟨hreads, heq.2⟩, fun heq => ⟨rfl, heq.2⟩⟩
    · exact ⟨fun heq => absurd heq (hb.blocksOf_ne hreads _ _), fun heq => absurd heq.1 hreads⟩

end Reading

/-! ### The lines of a document -/

/-- A blank line at the end adds nothing. -/
theorem blocksOf_append_blank (tally : Tally) (collected : List (List Char)) (ls : List Line) :
    blocksOf tally collected (ls ++ [.blank]) = blocksOf tally collected ls := by
  induction ls generalizing tally collected with
  | nil => exact List.append_nil _
  | cons l ls ih =>
    rw [List.cons_append]
    cases l <;> simp only [blocksOf, ih]

/-- Lines with blank lines between them are read as they are. -/
theorem lines_intercalate {x : List Char} {xs : List (List Char)}
    (h : ∀ y ∈ x :: xs, '\n' ∉ y ∧ y.getLast? ≠ some '\r') :
    lines ("\n".intercalate ((x :: xs).map fun y => line (String.ofList y))).toList ++ [[]] =
      (x :: xs).flatMap fun y => [y, []] := by
  have hline : ∀ y : List Char, (line (String.ofList y)).toList = y ++ ['\n'] := by
    intro y
    rw [line, String.toList_append, String.toList_ofList]
    rfl
  induction xs generalizing x with
  | nil =>
    obtain ⟨hfeed, hreturn⟩ := h x List.mem_cons_self
    rw [List.map_singleton, String.intercalate_singleton, hline, lines_append hfeed hreturn]
    rfl
  | cons y ys ih =>
    obtain ⟨hfeed, hreturn⟩ := h x List.mem_cons_self
    have htext : ("\n".intercalate ((x :: y :: ys).map fun y => line (String.ofList y))).toList =
        x ++ '\n' :: '\n' ::
          ("\n".intercalate ((y :: ys).map fun y => line (String.ofList y))).toList := by
      rw [List.map_cons, List.map_cons, String.intercalate_cons_cons, String.toList_append,
        String.toList_append, hline]
      simp
    rw [htext, lines_append hfeed hreturn, lines_feed_cons, List.cons_append, List.cons_append,
      ih fun z hz => h z (List.mem_cons_of_mem _ hz)]
    rfl

theorem blocksOf_lines_intercalate (tally : Tally) {xs : List (List Char)}
    (h : ∀ x ∈ xs, '\n' ∉ x ∧ x.getLast? ≠ some '\r') :
    blocksOf tally []
      ((lines ("\n".intercalate (xs.map fun x => line (String.ofList x))).toList).map
        Line.ofChars) =
      blocksOf tally [] (xs.flatMap fun x => [Line.ofChars x, .blank]) := by
  cases xs with
  | nil => rfl
  | cons x xs =>
    have hlines := congrArg (List.map Line.ofChars) (lines_intercalate h)
    rw [List.map_append, List.map_flatMap] at hlines
    rw [← blocksOf_append_blank]
    exact congrArg (blocksOf tally []) hlines

theorem AllWritten.isLine {source : List (List Char)} (hsource : ∀ l ∈ source, '\n' ∉ l)
    {tally : Tally} {xs : List (List Char)} {bs : List Block}
    (h : AllWritten source tally xs bs) : ∀ x ∈ xs, '\n' ∉ x ∧ x.getLast? ≠ some '\r' := by
  induction h with
  | nil => exact fun _ hx => absurd hx List.not_mem_nil
  | cons hb _ ih => exact List.forall_mem_cons.mpr ⟨hb.isLine hsource, ih⟩

theorem AllWritten.map_render {source : List (List Char)} {tally : Tally}
    {xs : List (List Char)} {bs : List Block} (h : AllWritten source tally xs bs) :
    bs.map (Block.render .markdown) = xs.map fun x => line (String.ofList x) := by
  induction h with
  | nil => rfl
  | cons hb _ ih => rw [List.map_cons, List.map_cons, hb.render_eq, ih]

/-- The blocks of a fragment have no ids of their own before the document is
numbered. -/
theorem AllWritten.map_withId {source : List (List Char)} {tally : Tally}
    {xs : List (List Char)} {bs : List Block} (h : AllWritten source tally xs bs) :
    bs.map (Block.withId 0) = bs := by
  induction h with
  | nil => rfl
  | cons hb _ ih =>
    rw [List.map_cons, ih]
    cases hb <;> rfl

/-! ### Documents -/

theorem render_ofBlocks (title : String) (bs : List Block) :
    (Document.ofBlocks title bs).render .markdown =
      "\n".intercalate (bs.map (Block.render .markdown)) := by
  have hrender : ∀ (b : Block) (id : Nat), (b.withId id).render .markdown = b.render .markdown := by
    intro b id
    cases b <;> rfl
  exact congrArg ("\n".intercalate) (map_numberBlocks hrender 1 bs)

/-- Without their ids the blocks of a document are those it was made of. -/
theorem map_withId_ofBlocks {bs : List Block} (h : bs.map (Block.withId 0) = bs) (title : String) :
    (Document.ofBlocks title bs).blocks.map (Block.withId 0) = bs := by
  have hforget : ∀ (b : Block) (id : Nat), (b.withId id).withId 0 = b.withId 0 := by
    intro b id
    cases b <;> rfl
  exact (map_numberBlocks hforget 1 bs).trans h

theorem ofBlocks_inj {title : String} {bs bs' : List Block} (h : bs.map (Block.withId 0) = bs)
    (h' : bs'.map (Block.withId 0) = bs') :
    Document.ofBlocks title bs = Document.ofBlocks title bs' ↔ bs = bs' := by
  refine ⟨fun heq => ?_, fun heq => heq ▸ rfl⟩
  rw [← map_withId_ofBlocks h title, heq, map_withId_ofBlocks h' title]

theorem readsBack_withId {b : Block} {id : Nat} : (b.withId id).ReadsBack ↔ b.ReadsBack := by
  cases b with
  | paragraph p =>
    constructor
    · intro h q hq
      cases hq
      exact h { p with id } rfl
    · intro h q hq
      cases hq
      exact h p rfl
  | table | object | contents | pageBreak => exact ⟨fun _ _ => nofun, fun _ _ => nofun⟩

theorem mem_paragraphs {d : Document} {p : Paragraph} :
    p ∈ d.paragraphs ↔ .paragraph p ∈ d.blocks := by
  refine List.mem_filterMap.trans ⟨?_, fun hmem => ⟨_, hmem, rfl⟩⟩
  rintro ⟨b, hmem, hb⟩
  cases b with
  | paragraph q =>
    cases hb
    exact hmem
  | table | object | contents | pageBreak => cases hb

/-- A paragraph is joined lines of words. -/
theorem AllWritten.exists_joined {source : List (List Char)} {tally : Tally}
    {xs : List (List Char)} {bs : List Block} (h : AllWritten source tally xs bs) {p : Paragraph}
    (hp : .paragraph p ∈ bs) (hlevel : p.level = none) :
    ∃ ws, ws ≠ [] ∧ p.chars = joinLines ws ∧ ∀ w ∈ ws, IsWords source w := by
  induction h with
  | nil => cases hp
  | cons hb _ ih =>
    obtain hp | hp := List.mem_cons.mp hp
    · subst hp
      cases hb with
      | @paragraph ws hne hwords hformula =>
        exact ⟨ws, hne, by rw [chars_plain, String.toList_ofList], hwords⟩
      | heading => cases hlevel
    · exact ih hp

/-- **Markdown reads back.** The fragment that a document of a fragment is
written as in Markdown reads as the document again exactly if no paragraph
but a heading has the text of an image line; and such a text is joined from
several lines. -/
theorem parse_render_markdown_iff (title content : String) :
    (parse title ((parse title content).render .markdown) = parse title content ↔
      ∀ p ∈ (parse title content).paragraphs, p.level = none → image? p.chars = none) ∧
    ∀ p ∈ (parse title content).paragraphs, p.level = none → image? p.chars ≠ none →
      ∃ ws, 2 ≤ ws.length ∧ p.chars = joinLines ws ∧
        ∀ w ∈ ws, ∃ l ∈ lines content.toList, Line.ofChars l = .words w := by
  have hnone : ∀ (source : List (List Char)), ∀ w ∈ ([] : List (List Char)), IsWords source w :=
    fun _ _ => nofun
  have hblocks : ∀ text : String, ∃ xs, AllWritten (lines text.toList) {} xs
      (blocksOf {} [] ((lines text.toList).map Line.ofChars)) := fun text =>
    exists_allWritten_blocksOf (fun _ => not_mem_of_mem_lines) {} (hnone _) fun _ => id
  obtain ⟨xs, hxs⟩ := hblocks content
  have hmarkdown : (parse title content).render .markdown =
      "\n".intercalate (xs.map fun x => line (String.ofList x)) := by
    rw [parse, render_ofBlocks, hxs.map_render]
  obtain ⟨ys, hys⟩ := hblocks ((parse title content).render .markdown)
  have hsame := blocksOf_lines_intercalate {} (hxs.isLine fun _ => not_mem_of_mem_lines)
  rw [← hmarkdown] at hsame
  have hids := map_withId_ofBlocks hxs.map_withId title
  refine ⟨?_, fun p hp hlevel himage => ?_⟩
  · calc parse title ((parse title content).render .markdown) = parse title content
      ↔ blocksOf {} [] ((lines ((parse title content).render .markdown).toList).map
            Line.ofChars) = blocksOf {} [] ((lines content.toList).map Line.ofChars) :=
          ofBlocks_inj hys.map_withId hxs.map_withId
    _ ↔ ∀ b ∈ blocksOf {} [] ((lines content.toList).map Line.ofChars), b.ReadsBack := by
          rw [hsame]
          exact hxs.blocksOf_eq_iff
    _ ↔ ∀ b ∈ (parse title content).blocks, b.ReadsBack := by
          rw [← hids, List.forall_mem_map]
          exact forall₂_congr fun b _ => readsBack_withId
    _ ↔ _ := ⟨fun h p hp => h _ (mem_paragraphs.mp hp) p rfl,
          fun h b hb p hp => h p (mem_paragraphs.mpr (hp ▸ hb))⟩
  · have hmem := List.mem_map_of_mem (f := Block.withId 0) (mem_paragraphs.mp hp)
    rw [parse, hids] at hmem
    obtain ⟨ws, hne, hjoined, hwords⟩ := hxs.exists_joined hmem hlevel
    refine ⟨ws, ?_, hjoined, hwords⟩
    match ws, hne with
    | [w], _ =>
      obtain ⟨-, -, -, hword⟩ := of_isWords (hwords w List.mem_cons_self)
      exact absurd (hjoined.symm ▸ hword) himage
    | w :: w' :: ws, _ => exact Nat.le_add_left 2 ws.length

/-- Two lines of which neither is an image line make one when joined. The
fragment without them reads back. -/
theorem reads_back_unless_joined :
    (parse "t" "# A\n\n$$ x $$\n\n![a](b)").paragraphs.map (·.text) = ["A"] ∧
    parse "t" ((parse "t" "# A\n\n$$ x $$\n\n![a](b)").render .markdown) =
      parse "t" "# A\n\n$$ x $$\n\n![a](b)" ∧
    (parse "t" "![a](b\nc)").paragraphs.map (·.text) = ["![a](b c)"] ∧
    parse "t" ((parse "t" "![a](b\nc)").render .markdown) ≠ parse "t" "![a](b\nc)" := by
  refine ⟨by decide +kernel, ?_, by decide +kernel, fun heq => ?_⟩
  · exact (parse_render_markdown_iff "t" "# A\n\n$$ x $$\n\n![a](b)").1.mpr (by decide +kernel)
  · exact absurd ((parse_render_markdown_iff "t" "![a](b\nc)").1.mp heq) (by decide +kernel)

end Fragment
end Compositor
