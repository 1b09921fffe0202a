/-
# Ids for life

A paragraph or a table is known by its id, and every range of text finds its
block by it. So an id has to mean one block, from the moment when it is given
out until all ids are given out anew. What carries this is `Continues`: a
document that continues another one has given out fresh ids in order, and
those of its blocks that have older ids are blocks of the other one. Each
operation continues the document that it is applied to, and the relation is
transitive, so any number of operations does.

Key definitions: `Document.Continues`, `Document.Op`, `Document.Reachable`.
Key theorems: `Step.continues`, `Op.continues`, `ids_of_reachable`.
-/
import Compositor.Proofs.Document.Edits
import Compositor.Proofs.File.Loadable
import Compositor.Proofs.Macro.Advances

namespace Compositor.Document
open Macro

/-! ### Documents that continue others -/

/-- What a document becomes while its ids are not given out anew: the ids
from `d.nextId` on go to blocks that are new, and a block with an older id is
one of the blocks of `d`, maybe with other texts. -/
structure Continues (d d' : Document) : Prop where
  nextId_le : d.nextId ≤ d'.nextId
  older : ∀ b ∈ d'.frames, ∀ id, b.id? = some id → id < d.nextId → b ∈ d.frames
  numbered : d.Numbered → d'.Numbered

namespace Continues

variable {d d' d'' : Document}

theorem refl (d : Document) : d.Continues d := ⟨Nat.le_refl _, fun _ hb _ _ _ => hb, id⟩

theorem trans (h : d.Continues d') (h' : d'.Continues d'') : d.Continues d'' := by
  refine ⟨Nat.le_trans h.nextId_le h'.nextId_le, fun b hb id hid hlt => ?_,
    fun hd => h'.numbered (h.numbered hd)⟩
  have hb' : b ∈ d'.frames := h'.older b hb id hid (Nat.lt_of_lt_of_le hlt h.nextId_le)
  exact h.older b hb' id hid hlt

/-- An older id that is still in use was in use before. -/
theorem mem_ids (h : d.Continues d') {id : Nat} (hid : id ∈ d'.ids) (hlt : id < d.nextId) :
    id ∈ d.ids := by
  obtain ⟨b, hb, hbid⟩ := mem_ids_iff.mp hid
  exact mem_ids_iff.mpr ⟨b, h.older b hb id hbid hlt, hbid⟩

end Continues

theorem Rewords.numbered {d d' : Document} (h : d.Rewords d') (hd : d.Numbered) :
    d'.Numbered := by
  have hids : d'.ids = d.ids := by
    rw [← filterMap_id?_frames, h.frames, filterMap_id?_frames]
  constructor
  · rw [hids]
    exact hd.distinct
  · rw [hids, h.nextId]
    exact hd.fresh

theorem Rewords.continues {d d' : Document} (h : d.Rewords d') : d.Continues d' := by
  refine ⟨Nat.le_of_eq h.nextId.symm, fun b hb _ _ _ => ?_, h.numbered⟩
  rw [← h.frames]
  exact hb

theorem mem_map_frame_half {b : Block} {p : Paragraph} (h : b ∈ (half p).map Block.frame) :
    b = (Block.paragraph p).frame := by
  obtain ⟨b', hb', rfl⟩ := List.mem_map.mp h
  unfold half at hb'
  split at hb'
  · cases hb'
  · rw [List.mem_singleton.mp hb']

theorem freshId_le_of_mem_adoptBlocks {taken : List String} {next id : Nat} {bs : List Block}
    {b : Block} (hb : b ∈ (adoptBlocks taken next bs).1.map Block.frame) (hid : b.id? = some id) :
    freshId next ≤ id := by
  obtain ⟨b', hb', rfl⟩ := List.mem_map.mp hb
  rw [Block.id?_frame] at hid
  have hmem : id ∈ (adoptBlocks taken next bs).1.filterMap Block.id? :=
    List.mem_filterMap.mpr ⟨b', hb', hid⟩
  rw [(ids_adoptBlocks taken next bs).1, List.mem_range'_1] at hmem
  exact hmem.1

theorem Splits.continues {bs : List Block} {d d' : Document} (h : Splits bs d d') :
    d.Continues d' := by
  obtain ⟨before, p, after, head, tail, hb, rfl⟩ := h
  have hlast := d.tailId_eq bs
  have hle := le_freshId d.nextId
  refine ⟨?_, fun b hmem id hid hlt => ?_, fun hd => hd.split hb bs rfl rfl⟩
  · show d.nextId ≤ d.tailId bs + 1
    omega
  · have hframes : d.frames =
        before.map Block.frame ++ (Block.paragraph p).frame :: after.map Block.frame := by
      rw [frames, hb, List.map_append, List.map_cons]
    simp only [frames, List.map_append, List.mem_append] at hmem
    rw [hframes, List.mem_append, List.mem_cons]
    rcases hmem with (((hmem | hmem) | hmem) | hmem) | hmem
    · exact .inl hmem
    · -- the half before keeps the id, and only its runs are others
      have hframe := mem_map_frame_half hmem
      exact .inr (.inl hframe)
    · have hge := freshId_le_of_mem_adoptBlocks hmem hid
      omega
    · rw [mem_map_frame_half hmem] at hid
      have hge : d.tailId bs = id := Option.some.inj hid
      omega
    · exact .inr (.inr hmem)

theorem Step.continues {d d' : Document} (h : d.Step d') : d.Continues d' := by
  rcases h.rewords_or_splits with h | ⟨bs, h⟩
  · exact h.continues
  · exact h.continues

theorem continues_of_steps {d d' : Document} (h : Relation.ReflTransGen Step d d') :
    d.Continues d' := by
  induction h with
  | refl => exact .refl d
  | tail _ hstep ih => exact ih.trans hstep.continues

theorem continues_push (d : Document) (b : Block) : d.Continues (d.push b) := by
  obtain ⟨hids, -, hle⟩ := ids_numberBlocks d.nextId [b]
  refine ⟨hle, fun b' hb' id hid hlt => ?_, fun hd => hd.push b⟩
  · change b' ∈ (d.blocks ++ (numberBlocks d.nextId [b]).1).map Block.frame at hb'
    rw [List.map_append, List.mem_append] at hb'
    rcases hb' with hb' | hb'
    · exact hb'
    · obtain ⟨c, hc, rfl⟩ := List.mem_map.mp hb'
      rw [Block.id?_frame] at hid
      have hmem : id ∈ (numberBlocks d.nextId [b]).1.filterMap Block.id? :=
        List.mem_filterMap.mpr ⟨c, hc, hid⟩
      rw [hids, List.mem_range'_1] at hmem
      have := le_freshId d.nextId
      omega

theorem continues_removeAt (d : Document) (index : Nat) : d.Continues (d.removeAt index) := by
  have hsub : (d.removeAt index).blocks.Sublist d.blocks := List.eraseIdx_sublist d.blocks index
  refine ⟨Nat.le_refl _, fun b hb _ _ _ => (hsub.map Block.frame).subset hb, fun hd => ?_⟩
  have hids : (d.removeAt index).ids.Sublist d.ids := hsub.filterMap Block.id?
  exact ⟨hd.distinct.sublist hids, fun id hid => hd.fresh id (hids.subset hid)⟩

/-! ### Operations -/

/-- What may be done to a document between two renumberings. The sessions of
passes and of inclusion may have any journal; where a fault stops the work, the
document stays as it is then. -/
inductive Op : Document → Document → Prop
  | push (d : Document) (b : Block) : Op d (d.push b)
  | pushParagraph (d : Document) (text : String) : Op d (d.pushParagraph text)
  | removeAt (d : Document) (index : Nat) : Op d (d.removeAt index)
  | replaceText (d : Document) (r : TextRange) (new : String) :
    Op d (d.afterEdit (d.replaceText r new))
  | splice (d : Document) (r : TextRange) (bs : List Block) : Op d (d.afterEdit (d.splice r bs))
  | refreshContents (d : Document) : Op d d.refreshContents
  | pass (s : Session) (pass : Pass) : Op s.document (pass.run.left s).document
  | includeDocuments (s : Session) (w : Workspace) (limit : Nat)
    (mainText? : Option (List Block)) :
    Op s.document ((Macro.includeDocuments w limit mainText?).left s).document

theorem Op.continues {d d' : Document} (h : d.Op d') : d.Continues d' := by
  cases h with
  | push _ b => exact d.continues_push b
  | pushParagraph _ text => exact d.continues_push _
  | removeAt _ index => exact d.continues_removeAt index
  | replaceText _ r new => exact continues_of_steps (steps_afterEdit fun _ _ h => .replaceText h)
  | splice _ r bs => exact continues_of_steps (d.steps_splice r bs)
  | refreshContents => exact Step.refreshContents.continues
  | pass s pass => exact continues_of_steps (advances_run pass s).steps
  | includeDocuments s w limit mainText? =>
    exact continues_of_steps (advances_includeDocuments w limit mainText? s).steps

theorem continues_of_ops {d d' : Document} (h : Relation.ReflTransGen Op d d') :
    d.Continues d' := by
  induction h with
  | refl => exact .refl d
  | tail _ hop ih => exact ih.trans hop.continues

/-! ### Reachable documents -/

/-- What a document can become from the moment when it is made or loaded. -/
inductive Reachable : Document → Prop
  | new (title : String) : Reachable { title }
  | ofBlocks (title : String) (bs : List Block) : Reachable (ofBlocks title bs)
  | loaded {fs : FileSystem} {path : String} {d : Document} :
    fs.loadDocument path = .ok d → Reachable d
  | op {d d' : Document} : Reachable d → d.Op d' → Reachable d'
  | renumber {d : Document} : Reachable d → Reachable d.renumber

/-- The ids are distinct and lie from 1 on below the fresh ones. -/
structure Counted (d : Document) : Prop extends Numbered d where
  positive : ∀ id ∈ d.ids, 1 ≤ id
  nextId_pos : 1 ≤ d.nextId

theorem counted_ofBlocks (title : String) (bs : List Block) : (ofBlocks title bs).Counted := by
  obtain ⟨hids, -, hle⟩ := ids_numberBlocks 1 bs
  refine ⟨numbered_ofBlocks title bs, fun id hid => ?_, hle⟩
  change id ∈ (numberBlocks 1 bs).1.filterMap Block.id? at hid
  rw [hids, List.mem_range'_1] at hid
  exact hid.1

theorem Counted.lt_nextId {d : Document} (h : d.Counted) {id : Nat} (hid : id ∈ d.ids) :
    id < d.nextId := by
  rw [← freshId_of_pos h.nextId_pos]
  exact h.fresh id hid

/-- Documents of the same blocks and fresh ids are numbered alike. -/
theorem Counted.congr {d d' : Document} (h : d.Counted) (hblocks : d'.blocks = d.blocks)
    (hnext : d'.nextId = d.nextId) : d'.Counted := by
  have hids : d'.ids = d.ids := congrArg (List.filterMap Block.id?) hblocks
  refine ⟨⟨?_, ?_⟩, ?_, ?_⟩
  · rw [hids]
    exact h.distinct
  · rw [hids, hnext]
    exact h.fresh
  · rw [hids]
    exact h.positive
  · rw [hnext]
    exact h.nextId_pos

theorem Counted.continued {d d' : Document} (hd : d.Counted) (h : d.Continues d') :
    d'.Counted := by
  refine ⟨h.numbered hd.toNumbered, fun id hid => ?_, Nat.le_trans hd.nextId_pos h.nextId_le⟩
  by_cases hlt : id < d.nextId
  · exact hd.positive id (h.mem_ids hid hlt)
  · have := hd.nextId_pos
    omega

/-- A snapshot is given ids from 1 on, whatever ids are written in it. -/
theorem counted_of_ofSnapshot? {s : String} {d : Document} (h : ofSnapshot? s = some d) :
    d.Counted := by
  obtain ⟨v, -, hv⟩ := Option.bind_eq_some_iff.mp h
  unfold ofJson? at hv
  split at hv
  · obtain ⟨title, -, hv⟩ := Option.bind_eq_some_iff.mp hv
    obtain ⟨metadata, -, hv⟩ := Option.bind_eq_some_iff.mp hv
    obtain ⟨bs, -, hv⟩ := Option.bind_eq_some_iff.mp hv
    cases hv
    exact (counted_ofBlocks title bs).congr rfl rfl
  · cases hv

theorem counted_of_loadDocument {fs : FileSystem} {path : String} {d : Document}
    (h : fs.loadDocument path = .ok d) : d.Counted := by
  unfold FileSystem.loadDocument at h
  generalize Path.extension path = extension at h
  dsimp only at h
  split at h
  · obtain ⟨s, -, h⟩ := FileSystem.exists_of_bind_eq_ok h
    cases hsnapshot : ofSnapshot? s with
    | none =>
      rw [hsnapshot] at h
      cases h
    | some d' =>
      rw [hsnapshot] at h
      cases h
      exact counted_of_ofSnapshot? hsnapshot
  · split at h
    · obtain ⟨body, -, h⟩ := FileSystem.exists_of_bind_eq_ok h
      cases h
      exact (counted_ofBlocks (titleOf path) (Word.importBody 1 body)).congr rfl rfl
    · obtain ⟨s, -, h⟩ := FileSystem.exists_of_bind_eq_ok h
      cases h
      exact Counted.congr (counted_ofBlocks (titleOf path) _) rfl rfl

theorem Reachable.counted {d : Document} (h : d.Reachable) : d.Counted := by
  induction h with
  | new title => exact counted_ofBlocks title []
  | ofBlocks title bs => exact counted_ofBlocks title bs
  | loaded hload => exact counted_of_loadDocument hload
  | op _ hop ih => exact ih.continued hop.continues
  | @renumber d _ _ => exact (counted_ofBlocks d.title d.blocks).congr rfl rfl

/-- **An id means one block for life.** The ids of a document that can be
reached are distinct, and they lie from 1 on below the next one. Until they
are given out anew, whatever is done: the next id never goes down, a block
with an id that is in use keeps its place in the structure, so that only its
texts can differ, and an id that is gone from the document stays gone. -/
theorem ids_of_reachable {d : Document} (h : d.Reachable) :
    d.ids.Nodup ∧ (∀ id ∈ d.ids, 1 ≤ id ∧ id < d.nextId) ∧
    ∀ d', Relation.ReflTransGen Op d d' →
      d.nextId ≤ d'.nextId ∧
      (∀ b ∈ d.blocks, ∀ b' ∈ d'.blocks, b.hasId = true → b'.id? = b.id? →
        b'.frame = b.frame) ∧
      ∀ id ∈ d.ids, id ∉ d'.ids → ∀ d'', Relation.ReflTransGen Op d' d'' → id ∉ d''.ids := by
  have hd := h.counted
  refine ⟨hd.distinct, fun id hid => ⟨hd.positive id hid, hd.lt_nextId hid⟩, ?_⟩
  intro d' hops
  have hcontinues := continues_of_ops hops
  refine ⟨hcontinues.nextId_le, fun b hb b' hb' hhas hsame => ?_, ?_⟩
  · obtain ⟨id, hid⟩ := Option.isSome_iff_exists.mp hhas
    have hlt : id < d.nextId := hd.lt_nextId (List.mem_filterMap.mpr ⟨b, hb, hid⟩)
    have hold : b'.frame ∈ d.frames := by
      refine hcontinues.older _ (List.mem_map_of_mem hb') id ?_ hlt
      rw [Block.id?_frame, hsame, hid]
    obtain ⟨c, hc, hcb⟩ := List.mem_map.mp hold
    have hcid : c.id? = some id := by
      rw [← Block.id?_frame, hcb, Block.id?_frame, hsame, hid]
    rw [← hcb, hd.eq_of_id? hc hb hcid hid]
  · intro id hid hgone d'' hops' hback
    have hlt : id < d'.nextId := Nat.lt_of_lt_of_le (hd.lt_nextId hid) hcontinues.nextId_le
    exact hgone ((continues_of_ops hops').mem_ids hback hlt)

/-- A document of one paragraph, which is a token and nothing else. -/
def onlyToken : Document := ofBlocks "Report" [.paragraph (.plain "%TOC%")]

/-- The document with the paragraph replaced by a table of contents. -/
def onlyContents : Document :=
  onlyToken.afterEdit (onlyToken.splice ⟨1, none, 0, 5⟩ [.contents { title := "Contents" }])

/-- Of the paragraph neither half is left, so its id is gone; the next
paragraph gets another one. -/
theorem id_gone_after_splice :
    onlyToken.Reachable ∧ 1 ∈ onlyToken.ids ∧ 1 ∉ onlyContents.ids ∧
      1 ∉ (onlyContents.pushParagraph "The end").ids := by
  have hreachable : onlyToken.Reachable := .ofBlocks _ _
  have hmem : 1 ∈ onlyToken.ids := by decide +kernel
  have hgone : 1 ∉ onlyContents.ids := by decide +kernel
  have hsplice : Relation.ReflTransGen Op onlyToken onlyContents := .single (.splice _ _ _)
  have hpush : Relation.ReflTransGen Op onlyContents (onlyContents.pushParagraph "The end") :=
    .single (.pushParagraph _ _)
  have hlife := (ids_of_reachable hreachable).2.2 onlyContents hsplice
  exact ⟨hreachable, hmem, hgone, hlife.2.2 1 hmem hgone _ hpush⟩

end Compositor.Document
