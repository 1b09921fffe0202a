/-
# Headings and tables of contents

The outline of a document has one entry for each heading, a paragraph with an
outline level and a text that is not blank, and the entries come in the order
of the headings. A refresh puts it in every table of contents and changes
nothing else, so a second one changes nothing. The outline and the tables of
contents depend neither on ids nor on formats.

Key definitions: `Document.HeadingAt`, `Document.ListsHeadings`,
`Document.ContentsCurrent`.
Key theorems: `listsHeadings_outline`, `refreshContents_eq_self_iff`,
`contentsCurrent_of_refreshContents_eq`, `refreshContents_eq_congr`.
-/
import Compositor.Document.Contents
import Compositor.Proofs.Document.Importing
import Compositor.Proofs.Document.Snapshots
import Compositor.Proofs.Text.Trimming

namespace Compositor
open Text

/-! ### The outline -/

theorem Text.trim_eq_nil_iff {s : List Char} : trim s = [] ↔ allBlank s = true := by
  constructor
  · intro h
    rw [← ink_eq_nil_iff, ← ink_trim, h]
    rfl
  · intro h
    refine List.eq_nil_iff_forall_not_mem.mpr fun c hc => ?_
    obtain ⟨first, rest, htrim⟩ := List.exists_cons_of_ne_nil (List.ne_nil_of_mem hc)
    have hfirst : isBlank first = false := (trimmed_trim s).first first (by rw [htrim]; rfl)
    have hblank := List.all_eq_true.mp h first (mem_of_mem_trim (htrim ▸ List.mem_cons_self))
    rw [hfirst] at hblank
    cases hblank

theorem Text.isEmpty_trimmed (s : String) : (trimmed s).isEmpty = isAllBlank s := by
  rw [Bool.eq_iff_iff, isAllBlank, ← trim_eq_nil_iff]
  simp [trimmed]

namespace Document

/-- The entry is that of the heading that it points at. -/
def HeadingAt (d : Document) (item : OutlineItem) : Prop :=
  ∃ p, d.blocks[item.blockIndex]? = some (.paragraph p) ∧ p.level = some item.level ∧
    isAllBlank p.text = false ∧ item.title = trimmed p.text

/-- The entries are those of all headings, one for each, in document order. -/
structure ListsHeadings (d : Document) (entries : List OutlineItem) : Prop where
  ordered : entries.Pairwise fun a b => a.blockIndex < b.blockIndex
  mem_iff : ∀ item, item ∈ entries ↔ d.HeadingAt item

/-- Every table of contents lists the headings of the document. -/
def ContentsCurrent (d : Document) : Prop :=
  ∀ c, .contents c ∈ d.blocks → d.ListsHeadings c.entries

theorem outlineItem?_eq_some_iff {p : Paragraph} {index : Nat} {item : OutlineItem} :
    p.outlineItem? index = some item ↔
      item.blockIndex = index ∧ p.level = some item.level ∧ isAllBlank p.text = false ∧
        item.title = trimmed p.text := by
  unfold Paragraph.outlineItem?
  cases hlevel : p.level with
  | none => simp
  | some level =>
    dsimp only
    rw [isEmpty_trimmed]
    cases hblank : isAllBlank p.text with
    | true => simp
    | false =>
      obtain ⟨title, level', blockIndex⟩ := item
      simp only [Bool.false_eq_true, if_false, Option.some.injEq, OutlineItem.mk.injEq]
      grind

theorem mem_outline_iff {d : Document} {item : OutlineItem} :
    item ∈ d.outline ↔ d.HeadingAt item := by
  unfold outline HeadingAt
  simp only [List.mem_filterMap, Prod.exists, List.mem_zipIdx_iff_getElem?,
    Option.bind_eq_some_iff, outlineItem?_eq_some_iff]
  constructor
  · rintro ⟨b, i, hb, p, hp, rfl, hheading⟩
    cases b with
    | paragraph q => cases hp; exact ⟨p, hb, hheading⟩
    | _ => cases hp
  · rintro ⟨p, hp, hheading⟩
    exact ⟨.paragraph p, item.blockIndex, hp, p, rfl, rfl, hheading⟩

theorem zipIdx_ordered {α : Type} (l : List α) : l.zipIdx.Pairwise fun a b => a.2 < b.2 := by
  have h : (l.zipIdx.map Prod.snd).Pairwise (· < ·) := by
    rw [List.zipIdx_map_snd]
    exact List.pairwise_lt_range'
  exact List.pairwise_map.mp h

/-- **The outline lists the headings.** -/
theorem listsHeadings_outline (d : Document) : d.ListsHeadings d.outline where
  ordered := by
    refine List.pairwise_filterMap.mpr ((zipIdx_ordered d.blocks).imp ?_)
    rintro ⟨b, i⟩ ⟨b', i'⟩ hlt item hitem item' hitem'
    obtain ⟨p, -, hp⟩ := Option.bind_eq_some_iff.mp hitem
    obtain ⟨p', -, hp'⟩ := Option.bind_eq_some_iff.mp hitem'
    rw [(outlineItem?_eq_some_iff.mp hp).1, (outlineItem?_eq_some_iff.mp hp').1]
    exact hlt
  mem_iff _ := mem_outline_iff

/-! ### Refreshing -/

theorem withEntries_eq_self_iff {entries : List OutlineItem} {b : Block} :
    b.withEntries entries = b ↔ ∀ c, b = .contents c → c.entries = entries := by
  cases b with
  | contents c =>
    constructor
    · rintro h _ ⟨⟩
      exact (congrArg TableOfContents.entries (Block.contents.inj h)).symm
    · intro h
      rw [Block.withEntries, ← h c rfl]
  | _ => exact ⟨fun _ _ => nofun, fun _ => rfl⟩

/-- A refresh changes nothing if the tables of contents have the outline, and
only then. -/
theorem refreshContents_eq_self_iff {d : Document} :
    d.refreshContents = d ↔ ∀ c, .contents c ∈ d.blocks → c.entries = d.outline := by
  have hblocks : d.refreshContents = d ↔ d.blocks.map (Block.withEntries d.outline) = d.blocks :=
    ⟨congrArg Document.blocks, fun h => by rw [refreshContents, h]⟩
  rw [hblocks]
  constructor
  · intro h c hc
    have hall := List.map_inj_left.mp (h.trans (List.map_id d.blocks).symm)
    exact withEntries_eq_self_iff.mp (hall _ hc) c rfl
  · intro h
    refine (List.map_congr_left fun b hb => ?_).trans (List.map_id _)
    exact withEntries_eq_self_iff.mpr fun c hc => h c (hc ▸ hb)

theorem refreshContents_refreshContents (d : Document) :
    d.refreshContents.refreshContents = d.refreshContents := by
  rw [refreshContents_eq_self_iff, outline_refreshContents]
  intro c hc
  obtain ⟨b, -, hb⟩ := List.mem_map.mp hc
  cases b with
  | contents c' => rw [← Block.contents.inj hb]
  | _ => cases hb

theorem contentsCurrent_of_refreshContents_eq {d : Document} (h : d.refreshContents = d) :
    d.ContentsCurrent := by
  intro c hc
  rw [refreshContents_eq_self_iff.mp h c hc]
  exact d.listsHeadings_outline

end Document

/-! ### What the outline depends on -/

/-- What the outline and the tables of contents are made of: the level and the
text of a paragraph, and a table of contents. -/
def Block.outlined : Block → Block
  | .paragraph p => .paragraph { level := p.level, runs := [.plain p.text] }
  | .contents c => .contents c
  | _ => .pageBreak

namespace Block

theorem outlined_withId (b : Block) (id : Nat) : (b.withId id).outlined = b.outlined := by
  cases b <;> rfl

theorem outlined_reread (b : Block) : b.reread.outlined = b.outlined := by
  cases b with
  | paragraph p =>
    have hchars : (p.runs.map Run.reread).flatMap Run.chars = p.runs.flatMap Run.chars :=
      List.flatMap_map _ _ _
    rw [reread, outlined, outlined, Paragraph.text, Paragraph.text, Paragraph.chars,
      Paragraph.chars, hchars]
  | _ => rfl

theorem eq_of_outlined {b : Block} {c : TableOfContents} (h : b.outlined = .contents c) :
    b = .contents c := by
  cases b with
  | contents => exact h
  | _ => cases h

theorem outlineItem?_outlined (b : Block) (index : Nat) :
    b.outlined.paragraph?.bind (·.outlineItem? index) =
      b.paragraph?.bind (·.outlineItem? index) := by
  cases b with
  | paragraph p =>
    have htext : Paragraph.text { level := p.level, runs := [.plain p.text] } = p.text := by
      simp [Paragraph.text, Paragraph.chars, Run.plain, Run.chars]
    simp only [outlined, paragraph?, Option.bind_some, Paragraph.outlineItem?, htext]
  | _ => rfl

end Block

namespace Document

variable {d d' : Document}

theorem outline_congr (h : d'.blocks.map Block.outlined = d.blocks.map Block.outlined) :
    d'.outline = d.outline := by
  have houtline : ∀ d : Document, d.outline = (d.blocks.map Block.outlined).zipIdx.filterMap
      fun entry => entry.1.paragraph?.bind (·.outlineItem? entry.2) := by
    intro d
    rw [outline, List.zipIdx_map, List.filterMap_map]
    congr 1
    funext entry
    exact (entry.1.outlineItem?_outlined entry.2).symm
  rw [houtline, houtline, h]

/-- Whether a refresh changes something depends on nothing else. -/
theorem refreshContents_eq_congr
    (h : d'.blocks.map Block.outlined = d.blocks.map Block.outlined)
    (hd : d.refreshContents = d) : d'.refreshContents = d' := by
  rw [refreshContents_eq_self_iff] at hd ⊢
  intro c hc
  rw [outline_congr h]
  refine hd c ?_
  have hmem : .contents c ∈ d'.blocks.map Block.outlined := List.mem_map.mpr ⟨_, hc, rfl⟩
  rw [h] at hmem
  obtain ⟨b, hb, hbc⟩ := List.mem_map.mp hmem
  rwa [← Block.eq_of_outlined hbc]

theorem outlined_reread_renumber (d : Document) :
    d.reread.renumber.blocks.map Block.outlined = d.blocks.map Block.outlined := by
  calc d.reread.renumber.blocks.map Block.outlined
      = (d.blocks.map Block.reread).map Block.outlined :=
        map_numberBlocks Block.outlined_withId 1 _
    _ = d.blocks.map Block.outlined := by
        rw [List.map_map]
        exact List.map_congr_left fun b _ => b.outlined_reread

/-- The places that tables of contents tell are those of paragraphs. -/
theorem place_lt_of_refreshContents_eq (h : d.refreshContents = d) {b : Block}
    (hb : b ∈ d.blocks) {place : Nat} (hplace : place ∈ b.places) : place < d.blocks.length := by
  cases b with
  | contents c =>
    obtain ⟨item, hitem, rfl⟩ := List.mem_map.mp hplace
    obtain ⟨p, hp, -⟩ := ((contentsCurrent_of_refreshContents_eq h c hb).mem_iff item).mp hitem
    exact (List.getElem?_eq_some_iff.mp hp).1
  | _ => cases hplace

end Document
end Compositor
