/-
# Names of objects

Objects are inserted under names that are free. The search for one tries the
numbers from 2 on, and among one more candidate than there are names taken,
one is free, so it stops. A name that was given to an inserted object is taken
for those behind it, therefore the names that come in are distinct, and distinct
from those in the document. Only insertions bring in objects, and nothing that
is done to a document changes the ones that are there.

Key definitions: `Document.KeepsObjects`.
Key theorems: `freshName_of_mem`, `nodup_names_adoptBlocks`,
`keepsObjects_of_steps`, `allObjects_splice`.
-/
import Mathlib.Data.List.Forall2
import Compositor.Proofs.Document.Steps

namespace Compositor

/-! ### The search for a free name -/

theorem firstFree_passes (taken : List String) (name : String) (n tries : Nat) :
    ∃ m, n ≤ m ∧ m ≤ n + tries ∧ firstFree taken name n tries = suffixed name m ∧
      ∀ k, n ≤ k → k < m → suffixed name k ∈ taken := by
  induction tries generalizing n with
  | zero => exact ⟨n, Nat.le_refl n, Nat.le_refl n, rfl, fun k hk hlt => by omega⟩
  | succ tries ih =>
    unfold firstFree
    split
    · rename_i hmem
      obtain ⟨m, hm, hlast, hfound, hpassed⟩ := ih (n + 1)
      refine ⟨m, by omega, by omega, hfound, fun k hk hlt => ?_⟩
      by_cases hkn : k = n
      · rw [hkn]
        exact hmem
      · exact hpassed k (by omega) hlt
    · exact ⟨n, Nat.le_refl n, by omega, rfl, fun k hk hlt => by omega⟩

/-- **The search stops.** For a name that is taken it stops at the first free
number from 2 on, and it passes at most as many numbers as there are names. -/
theorem freshName_of_mem {taken : List String} {name : String} (h : name ∈ taken) :
    ∃ m, 2 ≤ m ∧ m ≤ taken.length + 2 ∧ (∀ k, 2 ≤ k → k < m → suffixed name k ∈ taken) ∧
      suffixed name m ∉ taken ∧ freshName taken name = suffixed name m := by
  obtain ⟨m, hm, hlast, hfound, hpassed⟩ := firstFree_passes taken name 2 taken.length
  have hname : freshName taken name = suffixed name m := by
    rw [freshName, if_pos h, hfound]
  refine ⟨m, hm, by omega, hpassed, ?_, hname⟩
  rw [← hname]
  exact freshName_not_mem taken name

/-! ### Objects among blocks -/

/-- The objects among the blocks. -/
def objectsOf (bs : List Block) : List EmbeddedObject := bs.filterMap Block.object?

/-- The names of the objects among the blocks. -/
def namesOf (bs : List Block) : List String := (objectsOf bs).map (·.name)

theorem objectsOf_cons_of_none {b : Block} (h : b.object? = none) (bs : List Block) :
    objectsOf (b :: bs) = objectsOf bs := List.filterMap_cons_none h

theorem objectsOf_cons_of_some {b : Block} {o : EmbeddedObject} (h : b.object? = some o)
    (bs : List Block) : objectsOf (b :: bs) = o :: objectsOf bs := List.filterMap_cons_some h

theorem objectsOf_append (bs cs : List Block) :
    objectsOf (bs ++ cs) = objectsOf bs ++ objectsOf cs := List.filterMap_append

/-- The names of inserted objects are distinct, and none of them is taken. -/
theorem nodup_names_adoptBlocks (taken : List String) (next : Nat) (bs : List Block) :
    (namesOf (adoptBlocks taken next bs).1).Nodup ∧
      ∀ name ∈ namesOf (adoptBlocks taken next bs).1, name ∉ taken := by
  induction bs generalizing taken next with
  | nil => exact ⟨List.nodup_nil, fun name hname => nomatch hname⟩
  | cons b bs ih =>
    cases b with
    | object o =>
      obtain ⟨hnodup, hfree⟩ := ih (freshName taken o.name :: taken) next
      refine ⟨List.nodup_cons.mpr ⟨fun hmem => ?_, hnodup⟩, fun name hname => ?_⟩
      · exact hfree _ hmem List.mem_cons_self
      · rcases List.mem_cons.mp hname with rfl | hname
        · exact freshName_not_mem taken o.name
        · exact fun hmem => hfree name hname (List.mem_cons_of_mem _ hmem)
    | paragraph | table => exact ih taken (freshId next + 1)
    | contents | pageBreak => exact ih taken next

/-- Insertion changes nothing about an object but its name. -/
theorem forall₂_adoptBlocks (taken : List String) (next : Nat) (bs : List Block) :
    List.Forall₂ (fun o o' : EmbeddedObject => o' = { o with name := o'.name })
      (objectsOf bs) (objectsOf (adoptBlocks taken next bs).1) := by
  induction bs generalizing taken next with
  | nil => exact .nil
  | cons b bs ih =>
    cases b with
    | object o => exact .cons rfl (ih (freshName taken o.name :: taken) next)
    | paragraph | table => exact ih taken (freshId next + 1)
    | contents | pageBreak => exact ih taken next

namespace Document

theorem objectsOf_half (p : Paragraph) : objectsOf (half p) = [] := by
  unfold half
  split <;> rfl

/-! ### Steps keep the objects -/

/-- The objects of `d` are in `d'` as they were and in their order, and if
their names were distinct, so are those of all objects there now. -/
structure KeepsObjects (d d' : Document) : Prop where
  sublist : d.allObjects.Sublist d'.allObjects
  nodup : d.objectNames.Nodup → d'.objectNames.Nodup

namespace KeepsObjects

variable {d d' d'' : Document}

theorem refl (d : Document) : d.KeepsObjects d := ⟨List.Sublist.refl _, id⟩

theorem trans (h : d.KeepsObjects d') (h' : d'.KeepsObjects d'') : d.KeepsObjects d'' :=
  ⟨h.sublist.trans h'.sublist, fun hd => h'.nodup (h.nodup hd)⟩

theorem of_objects_eq (h : d'.allObjects = d.allObjects) : d.KeepsObjects d' := by
  refine ⟨?_, fun hd => ?_⟩
  · rw [h]
  · rw [objectNames, h]
    exact hd

end KeepsObjects

theorem Rewords.allObjects_eq {d d' : Document} (h : d.Rewords d') :
    d'.allObjects = d.allObjects := by
  rw [← filterMap_object?_frames, h.frames, filterMap_object?_frames]

/-- A split puts the new objects between those before the paragraph and those
after it. -/
theorem Splits.allObjects_eq {bs : List Block} {d d' : Document} (h : Splits bs d d') :
    ∃ front back, d.allObjects = front ++ back ∧
      d'.allObjects = front ++ objectsOf (adoptBlocks d.objectNames d.nextId bs).1 ++ back := by
  obtain ⟨before, p, after, head, tail, hb, rfl⟩ := h
  refine ⟨objectsOf before, objectsOf after, ?_, ?_⟩
  · show objectsOf d.blocks = _
    rw [hb, objectsOf_append]
    rfl
  · show objectsOf (_ ++ _ ++ _ ++ _ ++ _) = _
    rw [objectsOf_append, objectsOf_append, objectsOf_append, objectsOf_append, objectsOf_half,
      objectsOf_half, List.append_nil, List.append_nil]

theorem Splits.keepsObjects {bs : List Block} {d d' : Document} (h : Splits bs d d') :
    d.KeepsObjects d' := by
  obtain ⟨front, back, hold, hnew⟩ := h.allObjects_eq
  obtain ⟨hdistinct, hfree⟩ := nodup_names_adoptBlocks d.objectNames d.nextId bs
  rw [namesOf] at hdistinct hfree
  generalize objectsOf (adoptBlocks d.objectNames d.nextId bs).1 = adopted at hnew hdistinct hfree
  refine ⟨?_, fun hd => ?_⟩
  · rw [hold, hnew]
    exact (List.sublist_append_left front adopted).append_right back
  · rw [objectNames, hnew, List.map_append, List.map_append, List.nodup_append, List.nodup_append]
    rw [objectNames, hold, List.map_append] at hd hfree
    obtain ⟨hfront, hback, hcross⟩ := List.nodup_append.mp hd
    refine ⟨⟨hfront, hdistinct, ?_⟩, hback, ?_⟩
    · rintro name hname _ hadopted rfl
      exact hfree name hadopted (List.mem_append_left _ hname)
    · rintro name hname _ hmem rfl
      rcases List.mem_append.mp hname with hname | hadopted
      · exact hcross name hname name hmem rfl
      · exact hfree name hadopted (List.mem_append_right _ hmem)

theorem Step.keepsObjects {d d' : Document} (h : d.Step d') : d.KeepsObjects d' := by
  rcases h.rewords_or_splits with h | ⟨bs, h⟩
  · exact .of_objects_eq h.allObjects_eq
  · exact h.keepsObjects

theorem keepsObjects_of_steps {d d' : Document} (h : Relation.ReflTransGen Step d d') :
    d.KeepsObjects d' := by
  induction h with
  | refl => exact .refl d
  | tail _ hstep ih => exact ih.trans hstep.keepsObjects

/-- An insertion of blocks at a range; one that fails changes nothing. -/
def Insertion (d d' : Document) : Prop := ∃ r bs, d' = d.afterEdit (d.splice r bs)

theorem keepsObjects_of_insertions {d d' : Document} (h : Relation.ReflTransGen Insertion d d') :
    d.KeepsObjects d' := by
  induction h with
  | refl => exact .refl d
  | tail _ hlast ih =>
    obtain ⟨r, bs, rfl⟩ := hlast
    exact ih.trans (keepsObjects_of_steps (steps_splice _ r bs))

/-- An insertion in a cell brings in no object. One in a paragraph brings in
the objects of the blocks, with nothing changed but their names. -/
theorem allObjects_splice {d d' : Document} {r : TextRange} {bs : List Block} {e : Edit}
    (h : d.splice r bs = .ok (d', e)) :
    ∃ front adopted back, d.allObjects = front ++ back ∧
      d'.allObjects = front ++ adopted ++ back ∧
      List.Forall₂ (fun o o' : EmbeddedObject => o' = { o with name := o'.name })
        (if r.cell = none then objectsOf bs else []) adopted := by
  rcases splice_cases h with ⟨hcell, h⟩ | ⟨hcell, h⟩
  · refine ⟨d.allObjects, [], [], (List.append_nil _).symm, ?_, ?_⟩
    · rw [h.allObjects_eq, List.append_nil, List.append_nil]
    · rw [if_neg hcell]
      exact .nil
  · obtain ⟨front, back, hold, hnew⟩ := h.allObjects_eq
    refine ⟨front, _, back, hold, hnew, ?_⟩
    rw [if_pos hcell]
    exact forall₂_adoptBlocks d.objectNames d.nextId bs

end Document
end Compositor
