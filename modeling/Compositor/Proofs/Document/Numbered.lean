/-
# Numbered documents

The ids of a document are distinct, and none of them is still to be given
out. Every way to make a document gives it such ids, and every exchange of
some of its blocks keeps them so if the new blocks take theirs from the old
blocks or from the fresh ids. Then an id finds one block only, and the place
of a block in the list is the place where a search by its id ends.

Key definitions: `Document.ids`, `Document.Numbered`, `Document.overtaken`.
Key theorems: `ids_adoptBlocks`, `numbered_ofBlocks`, `Numbered.exchange`,
`Numbered.paragraph?_eq`, `splitAtParagraph_append`.
-/
import Compositor.Document.Edit

namespace Compositor

/-! ### Ids given out -/

namespace Block

theorem id?_withId {b : Block} (h : b.hasId = true) (id : Nat) : (b.withId id).id? = some id := by
  cases b with
  | paragraph | table => rfl
  | object | contents | pageBreak => cases h

theorem id?_withId_of_not {b : Block} (h : b.hasId = false) (id : Nat) :
    (b.withId id).id? = none := by
  cases b with
  | paragraph | table => cases h
  | object | contents | pageBreak => rfl

end Block

/-- How many of the blocks have an id. -/
def idCount (bs : List Block) : Nat := bs.countP Block.hasId

theorem ids_numberBlocks (next : Nat) (bs : List Block) :
    (numberBlocks next bs).1.filterMap Block.id? = List.range' (freshId next) (idCount bs) ∧
      freshId (numberBlocks next bs).2 = freshId next + idCount bs ∧
      next ≤ (numberBlocks next bs).2 := by
  induction bs generalizing next with
  | nil => exact ⟨rfl, rfl, Nat.le_refl next⟩
  | cons b bs ih =>
    rw [numberBlocks, idCount, List.countP_cons]
    cases hb : b.hasId with
    | true =>
      obtain ⟨hids, hlast, hle⟩ := ih (freshId next + 1)
      rw [freshId_succ] at hids hlast
      refine ⟨?_, ?_, ?_⟩
      · rw [List.filterMap_cons_some (Block.id?_withId hb (freshId next))]
        simp only [if_true, hids]
        rw [List.range'_succ]
        rfl
      · simp only [if_true, hlast]
        rw [idCount]
        omega
      · exact Nat.le_trans (Nat.le_succ_of_le (le_freshId next)) hle
    | false =>
      obtain ⟨hids, hlast⟩ := ih next
      refine ⟨?_, hlast⟩
      rw [List.filterMap_cons_none (Block.id?_withId_of_not hb (freshId next))]
      exact hids

/-- What does not depend on ids is the same before and after. -/
theorem map_numberBlocks {α : Type} {f : Block → α} (hf : ∀ b id, f (b.withId id) = f b)
    (next : Nat) (bs : List Block) : (numberBlocks next bs).1.map f = bs.map f := by
  induction bs generalizing next with
  | nil => rfl
  | cons b bs ih =>
    rw [numberBlocks]
    exact List.cons_eq_cons.mpr ⟨hf b (freshId next), ih _⟩

theorem ids_adoptBlocks (taken : List String) (next : Nat) (bs : List Block) :
    (adoptBlocks taken next bs).1.filterMap Block.id? =
        List.range' (freshId next) (idCount bs) ∧
      freshId (adoptBlocks taken next bs).2 = freshId next + idCount bs := by
  fun_induction adoptBlocks taken next bs with
  | case1 => exact ⟨rfl, rfl⟩
  | case2 taken next o bs name adopted last hrest ih =>
    rw [hrest] at ih
    rw [idCount, List.countP_cons_of_neg (by simp [Block.hasId, Block.id?])]
    exact ih
  | case3 taken next b bs hb adopted last hrest ih =>
    rw [hrest] at ih
    obtain ⟨hids, hlast⟩ := ih
    rw [idCount, List.countP_cons]
    cases hb : b.hasId with
    | true =>
      simp only [hb, if_true, freshId_succ] at hids hlast
      refine ⟨?_, ?_⟩
      · rw [List.filterMap_cons_some (Block.id?_withId hb (freshId next)), hids]
        simp only [if_true]
        rw [List.range'_succ]
        rfl
      · simp only [if_true]
        rw [hlast, idCount]
        omega
    | false =>
      rw [hb] at hids hlast
      refine ⟨?_, hlast⟩
      rw [List.filterMap_cons_none (Block.id?_withId_of_not hb (freshId next))]
      exact hids

namespace Document

/-- The id of what stands behind blocks that are put in. -/
def tailId (d : Document) (bs : List Block) : Nat :=
  freshId (adoptBlocks d.objectNames d.nextId bs).2

theorem tailId_eq (d : Document) (bs : List Block) :
    d.tailId bs = freshId d.nextId + idCount bs := (ids_adoptBlocks d.objectNames d.nextId bs).2

/-- The ids of the paragraphs and tables, in document order. -/
def ids (d : Document) : List Nat := d.blocks.filterMap Block.id?

/-- The ids are distinct, and those still to be given out are not among them. -/
structure Numbered (d : Document) : Prop where
  distinct : d.ids.Nodup
  fresh : ∀ id ∈ d.ids, id < freshId d.nextId

theorem numbered_ofBlocks (title : String) (bs : List Block) : (ofBlocks title bs).Numbered := by
  obtain ⟨hids, hlast, -⟩ := ids_numberBlocks 1 bs
  constructor
  · show ((numberBlocks 1 bs).1.filterMap Block.id?).Nodup
    rw [hids]
    exact List.nodup_range'
  · intro id hid
    change id ∈ (numberBlocks 1 bs).1.filterMap Block.id? at hid
    show id < freshId (numberBlocks 1 bs).2
    rw [hids, List.mem_range'_1] at hid
    omega

/-- With distinct ids there is an id above all of them. -/
theorem exists_numbered {d : Document} (h : d.ids.Nodup) :
    ∃ n, Numbered { d with nextId := n } := by
  refine ⟨d.ids.max?.getD 0 + 1, h, fun id hid => ?_⟩
  show id < freshId (d.ids.max?.getD 0 + 1)
  rw [freshId_succ]
  exact Nat.lt_succ_of_le (List.le_max?_getD_of_mem hid)

/-- A document of one paragraph, whose id is still to be given out: the next
paragraph or table gets the same. -/
def overtaken (text : String) : Document :=
  { ofBlocks "Report" [.paragraph (.plain text)] with nextId := 1 }

theorem nodup_ids_overtaken (text : String) : (overtaken text).ids.Nodup :=
  (numbered_ofBlocks "Report" [.paragraph (.plain text)]).distinct

/-! ### Blocks exchanged -/

/-- Some blocks exchanged for others: the new ones have distinct ids, each of
them an id of the old ones or a fresh one. -/
theorem Numbered.exchange {d d' : Document} {before old new after : List Block} (h : d.Numbered)
    (hold : d.blocks = before ++ old ++ after) (hnew : d'.blocks = before ++ new ++ after)
    (hdistinct : (new.filterMap Block.id?).Nodup)
    (hids : ∀ id ∈ new.filterMap Block.id?,
      id ∈ old.filterMap Block.id? ∨ freshId d.nextId ≤ id ∧ id < freshId d'.nextId)
    (hnext : freshId d.nextId ≤ freshId d'.nextId) : d'.Numbered := by
  obtain ⟨hd, hf⟩ := h
  simp only [ids, hold, List.filterMap_append] at hd hf
  rw [List.nodup_append, List.nodup_append] at hd
  obtain ⟨⟨hbefore, -, hbo⟩, hafter, hoa⟩ := hd
  have hlow : ∀ id, id ∈ before.filterMap Block.id? ∨ id ∈ after.filterMap Block.id? →
      id < freshId d.nextId := by
    intro id hid
    apply hf id
    simp only [List.mem_append]
    exact hid.elim (fun hid => .inl (.inl hid)) .inr
  constructor
  · simp only [ids, hnew, List.filterMap_append]
    rw [List.nodup_append, List.nodup_append]
    refine ⟨⟨hbefore, hdistinct, ?_⟩, hafter, ?_⟩
    · rintro i hi j hj rfl
      rcases hids i hj with hj | ⟨hj, -⟩
      · exact hbo i hi i hj rfl
      · have := hlow i (.inl hi)
        omega
    · rintro i hi j hj rfl
      rcases List.mem_append.mp hi with hi | hi
      · exact hoa i (List.mem_append_left _ hi) i hj rfl
      · rcases hids i hi with hi | ⟨hi, -⟩
        · exact hoa i (List.mem_append_right _ hi) i hj rfl
        · have := hlow i (.inr hj)
          omega
  · intro id hid
    simp only [ids, hnew, List.filterMap_append, List.mem_append] at hid
    rcases hid with (hid | hid) | hid
    · have := hlow id (.inl hid)
      omega
    · rcases hids id hid with hid | ⟨-, hid⟩
      · have := hf id (by simp only [List.mem_append]; exact .inl (.inr hid))
        omega
      · exact hid
    · have := hlow id (.inr hid)
      omega

theorem Numbered.push {d : Document} (h : d.Numbered) (b : Block) : (d.push b).Numbered := by
  obtain ⟨hids, hlast, hle⟩ := ids_numberBlocks d.nextId [b]
  have hold : d.blocks = d.blocks ++ [] ++ [] := by simp
  have hnew : (d.push b).blocks = d.blocks ++ (numberBlocks d.nextId [b]).1 ++ [] :=
    (List.append_nil _).symm
  refine h.exchange hold hnew ?_ ?_ ?_
  · rw [hids]
    exact List.nodup_range'
  · intro id hid
    rw [hids, List.mem_range'_1] at hid
    refine .inr ⟨hid.1, ?_⟩
    show id < freshId (numberBlocks d.nextId [b]).2
    omega
  · exact freshId_mono hle

/-! ### One block for an id -/

theorem Numbered.eq_of_id? {d : Document} (h : d.Numbered) {b b' : Block} {id : Nat}
    (hb : b ∈ d.blocks) (hb' : b' ∈ d.blocks) (hid : b.id? = some id) (hid' : b'.id? = some id) :
    b = b' := by
  have hd := h.distinct
  unfold ids at hd
  generalize d.blocks = bs at hb hb' hd
  induction bs with
  | nil => cases hb
  | cons a bs ih =>
    have hnot : a.id? = some id → id ∉ bs.filterMap Block.id? := by
      intro ha
      rw [List.filterMap_cons_some ha] at hd
      exact (List.nodup_cons.mp hd).1
    have hrest : (bs.filterMap Block.id?).Nodup :=
      hd.sublist ((List.sublist_cons_self a bs).filterMap _)
    rcases List.mem_cons.mp hb with rfl | hbs
    · rcases List.mem_cons.mp hb' with rfl | hbs'
      · rfl
      · exact absurd (List.mem_filterMap.mpr ⟨b', hbs', hid'⟩) (hnot hid)
    · rcases List.mem_cons.mp hb' with rfl | hbs'
      · exact absurd (List.mem_filterMap.mpr ⟨b, hbs, hid⟩) (hnot hid')
      · exact ih hbs hbs' hrest

theorem Numbered.paragraph?_eq {d : Document} (h : d.Numbered) {p : Paragraph}
    (hp : .paragraph p ∈ d.blocks) : d.paragraph? p.id = some p := by
  have hmem : p ∈ d.paragraphs := List.mem_filterMap.mpr ⟨_, hp, rfl⟩
  obtain ⟨q, hq⟩ : ∃ q, d.paragraph? p.id = some q :=
    Option.isSome_iff_exists.mp (List.find?_isSome.mpr ⟨p, hmem, by simp⟩)
  have hid : q.id = p.id := by simpa using List.find?_some hq
  obtain ⟨b, hb, hbq⟩ := List.mem_filterMap.mp (List.mem_of_find?_eq_some hq)
  cases b with
  | paragraph q' =>
    cases hbq
    have := h.eq_of_id? hb hp rfl (congrArg some hid.symm)
    cases this
    exact hq
  | table | object | contents | pageBreak => cases hbq

theorem mem_of_paragraph? {d : Document} {id : Nat} {p : Paragraph} (h : d.paragraph? id = some p) :
    .paragraph p ∈ d.blocks ∧ p.id = id := by
  obtain ⟨b, hb, hbp⟩ := List.mem_filterMap.mp (List.mem_of_find?_eq_some h)
  refine ⟨?_, by simpa using List.find?_some h⟩
  cases b with
  | paragraph q => cases hbp; exact hb
  | table | object | contents | pageBreak => cases hbp

theorem Numbered.table?_eq {d : Document} (h : d.Numbered) {t : Table}
    (ht : .table t ∈ d.blocks) : d.table? t.id = some t := by
  have hmem : t ∈ d.tables := List.mem_filterMap.mpr ⟨_, ht, rfl⟩
  obtain ⟨q, hq⟩ : ∃ q, d.table? t.id = some q :=
    Option.isSome_iff_exists.mp (List.find?_isSome.mpr ⟨t, hmem, by simp⟩)
  have hid : q.id = t.id := by simpa using List.find?_some hq
  obtain ⟨b, hb, hbq⟩ := List.mem_filterMap.mp (List.mem_of_find?_eq_some hq)
  cases b with
  | table q' =>
    cases hbq
    have := h.eq_of_id? hb ht rfl (congrArg some hid.symm)
    cases this
    exact hq
  | paragraph | object | contents | pageBreak => cases hbq

theorem mem_of_table? {d : Document} {id : Nat} {t : Table} (h : d.table? id = some t) :
    .table t ∈ d.blocks ∧ t.id = id := by
  obtain ⟨b, hb, hbt⟩ := List.mem_filterMap.mp (List.mem_of_find?_eq_some h)
  refine ⟨?_, by simpa using List.find?_some h⟩
  cases b with
  | table q => cases hbt; exact hb
  | paragraph | object | contents | pageBreak => cases hbt

/-- The blocks around a block have other ids. -/
theorem Numbered.id?_ne {d : Document} (h : d.Numbered) {before after : List Block} {b : Block}
    {id : Nat} (hb : d.blocks = before ++ b :: after) (hid : b.id? = some id) :
    ∀ x ∈ before ++ after, x.id? ≠ some id := by
  intro x hx hxid
  have hd := h.distinct
  rw [ids, hb, List.filterMap_append, List.filterMap_cons_some hid, List.nodup_append] at hd
  obtain ⟨-, hrest, hcross⟩ := hd
  rcases List.mem_append.mp hx with hx | hx
  · exact hcross id (List.mem_filterMap.mpr ⟨x, hx, hxid⟩) id List.mem_cons_self rfl
  · exact (List.nodup_cons.mp hrest).1 (List.mem_filterMap.mpr ⟨x, hx, hxid⟩)

end Document

theorem splitAtParagraph_append {before after : List Block} {p : Paragraph}
    (h : ∀ b ∈ before, b.id? ≠ some p.id) :
    splitAtParagraph p.id (before ++ .paragraph p :: after) = some (before, p, after) := by
  induction before with
  | nil => rw [List.nil_append, splitAtParagraph, if_pos rfl]
  | cons b before ih =>
    have hrest := ih fun b hb => h b (List.mem_cons_of_mem _ hb)
    cases b with
    | paragraph q =>
      have hq : q.id ≠ p.id := fun he => h _ List.mem_cons_self (congrArg some he)
      rw [List.cons_append, splitAtParagraph, if_neg hq, hrest]
      rfl
    | table | object | contents | pageBreak =>
      rw [List.cons_append, splitAtParagraph, hrest]
      · rfl
      · exact fun _ he => nomatch he

theorem splitAtTable_append {before after : List Block} {t : Table}
    (h : ∀ b ∈ before, b.id? ≠ some t.id) :
    splitAtTable t.id (before ++ .table t :: after) = some (before, t, after) := by
  induction before with
  | nil => rw [List.nil_append, splitAtTable, if_pos rfl]
  | cons b before ih =>
    have hrest := ih fun b hb => h b (List.mem_cons_of_mem _ hb)
    cases b with
    | table q =>
      have hq : q.id ≠ t.id := fun he => h _ List.mem_cons_self (congrArg some he)
      rw [List.cons_append, splitAtTable, if_neg hq, hrest]
      rfl
    | paragraph | object | contents | pageBreak =>
      rw [List.cons_append, splitAtTable, hrest]
      · rfl
      · exact fun _ he => nomatch he

end Compositor
