/-
# The formulas of a document after a repair

The repair goes through the formulas in document order. If all can be read, it
mends each, so that its text is the repaired one and nothing else about it has
changed, counts those whose text was not in order, and registers their names;
a second repair then finds all in order. Otherwise it stops at the first formula
that cannot be read, with those before it mended and registered, and leaves the
document from there on as it was.

Key definitions: `EmbeddedObject.formulaText`, `EmbeddedObject.needsRepair`,
`EmbeddedObject.Mended`, `Block.Repaired`.
Key theorems: `repairBlocks_of_readable`, `repairBlocks_append`,
`repairBlocks_of_inOrder`, `repairFormulas_mends`.
-/
import Compositor.Document.Formulas
import Compositor.Proofs.Formula.NormalForm
import Compositor.Proofs.Outcome
import Mathlib.Data.List.Forall2

namespace Compositor

/-! ### Formulas -/

/-- The objects that a property fault is about. -/
def PropertyFault.object : PropertyFault → String
  | .missing object _ => object
  | .notText object _ _ => object

namespace EmbeddedObject

/-- The text of a formula, or why it cannot be read. -/
def formulaText (o : EmbeddedObject) : Except PropertyFault String := o.textProperty formulaProperty

/-- Can the formula be read? -/
def IsReadable (o : EmbeddedObject) : Prop := ∃ text, o.formulaText = .ok text

instance (o : EmbeddedObject) : Decidable o.IsReadable :=
  match h : o.formulaText with
  | .ok text => isTrue ⟨text, h⟩
  | .error fault => isFalse fun ⟨text, htext⟩ => by rw [h] at htext; cases htext

/-- Would a repair change the text of the formula? -/
def needsRepair (o : EmbeddedObject) : Bool :=
  match o.formulaText with
  | .ok text => Formula.repair text ≠ text
  | .error _ => false

/-- The second object is the first with the text of its formula repaired. -/
structure Mended (o o' : EmbeddedObject) : Prop where
  name_eq : o'.name = o.name
  kind_eq : o'.kind = o.kind
  formulaText_eq : o'.formulaText = o.formulaText.map Formula.repair
  get?_eq : ∀ name, name ≠ formulaProperty → o'.properties.get? name = o.properties.get? name

theorem get?_of_formulaText {o : EmbeddedObject} {text : String} (h : o.formulaText = .ok text) :
    o.properties.get? formulaProperty = some (.text text) := by
  unfold formulaText textProperty property at h
  cases hget : o.properties.get? formulaProperty with
  | none => rw [hget] at h; cases h
  | some value =>
    rw [hget] at h
    cases value with
    | text value => cases h; rfl
    | integer => cases h
    | boolean => cases h

theorem formulaText_withFormula (o : EmbeddedObject) (text : String) :
    (o.withFormula text).formulaText = .ok text := by
  unfold formulaText textProperty property withFormula setProperty
  rw [PropertyBag.get?_insert]

theorem mended_withFormula {o : EmbeddedObject} {text : String} (h : o.formulaText = .ok text) :
    o.Mended (o.withFormula (Formula.repair text)) where
  name_eq := rfl
  kind_eq := rfl
  formulaText_eq := by rw [formulaText_withFormula, h]; rfl
  get?_eq name hname := PropertyBag.get?_insert_of_ne _ _ hname

/-- Why a formula cannot be read says which one. -/
theorem object_of_formulaText {o : EmbeddedObject} {fault : PropertyFault}
    (h : o.formulaText = .error fault) : fault.object = o.name := by
  unfold formulaText textProperty property at h
  cases hget : o.properties.get? formulaProperty with
  | none => rw [hget] at h; cases h; rfl
  | some value =>
    rw [hget] at h
    cases value with
    | text => cases h
    | integer => cases h; rfl
    | boolean => cases h; rfl

end EmbeddedObject

/-- The second block is the first after a repair: a formula is mended, and any
other block is as it was. -/
def Block.Repaired (b b' : Block) : Prop :=
  match b.formula? with
  | some o => ∃ o', b' = .object o' ∧ o.Mended o'
  | none => b' = b

theorem Block.repaired_of_none {b : Block} (h : b.formula? = none) : b.Repaired b := by
  unfold Block.Repaired
  rw [h]

theorem Block.repaired_of_some {b : Block} {o o' : EmbeddedObject} (h : b.formula? = some o)
    (hmended : o.Mended o') : b.Repaired (.object o') := by
  unfold Block.Repaired
  rw [h]
  exact ⟨o', rfl, hmended⟩

/-- The formulas among some blocks. -/
def formulasOf (bs : List Block) : List EmbeddedObject := bs.filterMap Block.formula?

theorem objects_formula (d : Document) : d.objects .formula = formulasOf d.blocks := by
  rw [Document.objects, Document.allObjects, List.filter_filterMap]
  rfl

theorem formula?_eq_some {b : Block} {o : EmbeddedObject} (h : b.formula? = some o) :
    b = .object o ∧ o.kind = .formula := by
  obtain ⟨hobject, hkind⟩ := Option.filter_eq_some_iff.mp h
  refine ⟨?_, of_decide_eq_true hkind⟩
  cases b with
  | object o' => exact congrArg Block.object (Option.some.inj hobject)
  | paragraph | table | contents | pageBreak => cases hobject

theorem formula?_object {o : EmbeddedObject} (h : o.kind = .formula) :
    (Block.object o).formula? = some o := by
  rw [Block.formula?, Block.object?, Option.filter_some, if_pos (decide_eq_true h)]

theorem formulasOf_cons_none {b : Block} (h : b.formula? = none) (bs : List Block) :
    formulasOf (b :: bs) = formulasOf bs := List.filterMap_cons_none h

theorem formulasOf_cons_some {b : Block} {o : EmbeddedObject} (h : b.formula? = some o)
    (bs : List Block) : formulasOf (b :: bs) = o :: formulasOf bs := List.filterMap_cons_some h

/-! ### The repair of blocks -/

theorem repairBlocks_cons_none {b : Block} (h : b.formula? = none) (bs : List Block) :
    repairBlocks (b :: bs) = (repairBlocks bs).keep b := by
  rw [repairBlocks, h]

theorem repairBlocks_cons_ok {b : Block} {o : EmbeddedObject} {text : String}
    (h : b.formula? = some o) (htext : o.formulaText = .ok text) (bs : List Block) :
    repairBlocks (b :: bs) = (repairBlocks bs).mend o text := by
  unfold EmbeddedObject.formulaText at htext
  rw [repairBlocks, h]
  simp only [htext]

theorem repairBlocks_cons_error {b : Block} {o : EmbeddedObject} {fault : PropertyFault}
    (h : b.formula? = some o) (htext : o.formulaText = .error fault) (bs : List Block) :
    repairBlocks (b :: bs) = { blocks := b :: bs, fault? := some fault } := by
  unfold EmbeddedObject.formulaText at htext
  rw [repairBlocks, h]
  simp only [htext]

/-- What a repair does if every formula can be read. -/
theorem repairBlocks_of_readable {bs : List Block} (h : ∀ o ∈ formulasOf bs, o.IsReadable) :
    List.Forall₂ Block.Repaired bs (repairBlocks bs).blocks ∧
      (repairBlocks bs).names = (formulasOf bs).map (·.name) ∧
      (repairBlocks bs).changed = (formulasOf bs).countP EmbeddedObject.needsRepair ∧
      (repairBlocks bs).fault? = none := by
  induction bs with
  | nil => exact ⟨.nil, rfl, rfl, rfl⟩
  | cons b bs ih =>
    cases hb : b.formula? with
    | none =>
      rw [formulasOf_cons_none hb] at h ⊢
      obtain ⟨hblocks, hnames, hchanged, hfault⟩ := ih h
      rw [repairBlocks_cons_none hb]
      exact ⟨.cons (Block.repaired_of_none hb) hblocks, hnames, hchanged, hfault⟩
    | some o =>
      rw [formulasOf_cons_some hb] at h ⊢
      obtain ⟨hblocks, hnames, hchanged, hfault⟩ :=
        ih fun o' ho' => h o' (List.mem_cons_of_mem o ho')
      obtain ⟨text, htext⟩ := h o List.mem_cons_self
      rw [repairBlocks_cons_ok hb htext]
      refine ⟨.cons (Block.repaired_of_some hb (EmbeddedObject.mended_withFormula htext)) hblocks,
        congrArg (o.name :: ·) hnames, ?_, hfault⟩
      simp only [Repairs.mend, List.countP_cons, EmbeddedObject.needsRepair, htext, hchanged]
      by_cases hsame : Formula.repair text = text
      · simp [hsame]
      · simp [hsame]

/-- What a repair of some blocks did, and then one of those behind them. -/
def Repairs.followedBy (r q : Repairs) : Repairs where
  blocks := r.blocks ++ q.blocks
  names := r.names ++ q.names
  changed := r.changed + q.changed
  fault? := q.fault?

theorem Repairs.keep_followedBy (b : Block) (r q : Repairs) :
    (r.keep b).followedBy q = (r.followedBy q).keep b := rfl

theorem Repairs.mend_followedBy (o : EmbeddedObject) (text : String) (r q : Repairs) :
    (r.mend o text).followedBy q = (r.followedBy q).mend o text := by
  by_cases hsame : Formula.repair text = text
  · simp [mend, followedBy, hsame]
  · simp [mend, followedBy, hsame, Nat.add_right_comm]

/-- Behind blocks whose formulas can be read the repair goes on. -/
theorem repairBlocks_append {front : List Block} (h : ∀ o ∈ formulasOf front, o.IsReadable)
    (back : List Block) :
    repairBlocks (front ++ back) = (repairBlocks front).followedBy (repairBlocks back) := by
  induction front with
  | nil => simp [repairBlocks, Repairs.followedBy]
  | cons b front ih =>
    cases hb : b.formula? with
    | none =>
      rw [formulasOf_cons_none hb] at h
      rw [List.cons_append, repairBlocks_cons_none hb, repairBlocks_cons_none hb, ih h,
        Repairs.keep_followedBy]
    | some o =>
      rw [formulasOf_cons_some hb] at h
      obtain ⟨text, htext⟩ := h o List.mem_cons_self
      rw [List.cons_append, repairBlocks_cons_ok hb htext, repairBlocks_cons_ok hb htext,
        ih fun o' ho' => h o' (List.mem_cons_of_mem o ho'), Repairs.mend_followedBy]

/-- If some formula cannot be read, there is a first one. -/
theorem exists_first_unreadable {bs : List Block} (h : ¬ ∀ o ∈ formulasOf bs, o.IsReadable) :
    ∃ front o back fault, bs = front ++ .object o :: back ∧ o.kind = .formula ∧
      (∀ o' ∈ formulasOf front, o'.IsReadable) ∧ o.formulaText = .error fault := by
  induction bs with
  | nil => exact absurd (fun o ho => absurd ho List.not_mem_nil) h
  | cons b bs ih =>
    cases hb : b.formula? with
    | none =>
      rw [formulasOf_cons_none hb] at h
      obtain ⟨front, o, back, fault, rfl, hkind, hfront, htext⟩ := ih h
      refine ⟨b :: front, o, back, fault, rfl, hkind, ?_, htext⟩
      rwa [formulasOf_cons_none hb]
    | some o =>
      obtain ⟨rfl, hkind⟩ := formula?_eq_some hb
      cases htext : o.formulaText with
      | error fault =>
        exact ⟨[], o, bs, fault, rfl, hkind, fun o' ho' => absurd ho' List.not_mem_nil, htext⟩
      | ok text =>
        rw [formulasOf_cons_some hb] at h
        have hrest : ¬ ∀ o' ∈ formulasOf bs, o'.IsReadable := by
          intro hrest
          refine h fun o' ho' => ?_
          rcases List.mem_cons.mp ho' with rfl | ho'
          · exact ⟨text, htext⟩
          · exact hrest o' ho'
        obtain ⟨front, o₁, back, fault, rfl, hkind₁, hfront, htext₁⟩ := ih hrest
        refine ⟨.object o :: front, o₁, back, fault, rfl, hkind₁, fun o' ho' => ?_, htext₁⟩
        rw [formulasOf_cons_some hb] at ho'
        rcases List.mem_cons.mp ho' with rfl | ho'
        · exact ⟨text, htext⟩
        · exact hfront o' ho'

/-! ### A second repair -/

/-- A value put where it is already changes nothing. -/
theorem PropertyBag.insert_get? {bag : PropertyBag} {name : String} {value : PropertyValue}
    (h : bag.get? name = some value) : bag.insert name value = bag := by
  obtain ⟨es, hs⟩ := bag
  have hes : insertInto name value es = es := by
    change es.lookup name = some value at h
    induction es with
    | nil => cases h
    | cons e es ih =>
      obtain ⟨hlt, hes⟩ := List.pairwise_cons.mp hs
      rw [insertInto]
      by_cases hname : name = e.1
      · subst hname
        rw [List.lookup_cons_self] at h
        rw [if_neg (String.lt_irrefl _), if_pos rfl, ← Option.some.inj h]
      · have hb : (name == e.1) = false := by simpa using hname
        rw [List.lookup_cons, hb] at h
        -- the name comes later, so its place is not before this one
        obtain ⟨l₁, l₂, hl, -⟩ := List.lookup_eq_some_iff.mp h
        have hlt' : e.1 < name := hlt (name, value) (by rw [hl]; simp)
        rw [if_neg (String.lt_asymm hlt'), if_neg hname, ih hes h]
  simp only [insert, hes]

theorem EmbeddedObject.withFormula_eq_self {o : EmbeddedObject} {text : String}
    (h : o.formulaText = .ok text) : o.withFormula text = o := by
  unfold withFormula setProperty
  rw [PropertyBag.insert_get? (get?_of_formulaText h)]

/-- Blocks whose formulas are in order are left as they are. -/
theorem repairBlocks_of_inOrder {bs : List Block}
    (h : ∀ o ∈ formulasOf bs, ∃ text, o.formulaText = .ok text ∧ Formula.repair text = text) :
    (repairBlocks bs).blocks = bs ∧ (repairBlocks bs).changed = 0 ∧
      (repairBlocks bs).fault? = none := by
  induction bs with
  | nil => exact ⟨rfl, rfl, rfl⟩
  | cons b bs ih =>
    cases hb : b.formula? with
    | none =>
      rw [formulasOf_cons_none hb] at h
      obtain ⟨hblocks, hchanged, hfault⟩ := ih h
      rw [repairBlocks_cons_none hb]
      exact ⟨congrArg (b :: ·) hblocks, hchanged, hfault⟩
    | some o =>
      rw [formulasOf_cons_some hb] at h
      obtain ⟨hblocks, hchanged, hfault⟩ := ih fun o' ho' => h o' (List.mem_cons_of_mem o ho')
      obtain ⟨text, htext, hsame⟩ := h o List.mem_cons_self
      rw [repairBlocks_cons_ok hb htext]
      simp only [Repairs.mend, hsame, EmbeddedObject.withFormula_eq_self htext, if_pos, hblocks,
        (formula?_eq_some hb).1]
      exact ⟨trivial, hchanged, hfault⟩

/-- After a repair the formulas are in order. -/
theorem inOrder_of_repaired {bs bs' : List Block} (h : List.Forall₂ Block.Repaired bs bs')
    (hread : ∀ o ∈ formulasOf bs, o.IsReadable) :
    ∀ o ∈ formulasOf bs', ∃ text, o.formulaText = .ok text ∧ Formula.repair text = text := by
  induction h with
  | nil => exact fun o ho => absurd ho List.not_mem_nil
  | @cons b b' bs bs' hb hbs ih =>
    unfold Block.Repaired at hb
    cases hformula : b.formula? with
    | none =>
      rw [hformula] at hb
      obtain rfl : b' = b := hb
      rw [formulasOf_cons_none hformula] at hread ⊢
      exact ih hread
    | some o =>
      rw [hformula] at hb
      obtain ⟨o', rfl, hmended⟩ := hb
      rw [formulasOf_cons_some hformula] at hread
      have hkind : o'.kind = .formula := hmended.kind_eq.trans (formula?_eq_some hformula).2
      rw [formulasOf_cons_some (formula?_object hkind)]
      intro o₁ ho₁
      rcases List.mem_cons.mp ho₁ with rfl | ho₁
      · obtain ⟨text, htext⟩ := hread o List.mem_cons_self
        refine ⟨Formula.repair text, ?_, Formula.repair_repair text⟩
        rw [hmended.formulaText_eq, htext]
        rfl
      · exact ih (fun o₂ ho₂ => hread o₂ (List.mem_cons_of_mem o ho₂)) o₁ ho₁

/-! ### The job -/

theorem foldl_register (names : List String) (j : Journal) :
    names.foldl Journal.register j = { j with formulas := j.formulas ++ names } := by
  induction names generalizing j with
  | nil => rw [List.append_nil]; rfl
  | cons name names ih => rw [List.foldl_cons, ih, Journal.register, List.append_assoc]; rfl

/-- The session after a repair of its document. -/
def Session.afterRepairs (s : Session) (repairs : Repairs) : Session where
  document := { s.document with blocks := repairs.blocks }
  journal := { s.journal with formulas := s.journal.formulas ++ repairs.names }
  notices := s.notices ++ countingNotices repairs.visited (s.document.objects .formula).length

theorem repairFormulas_run (s : Session) :
    Job.repairFormulas.run s =
      match (repairBlocks s.document.blocks).fault? with
      | some fault => .error (.property fault) (s.afterRepairs (repairBlocks s.document.blocks))
      | none =>
        .ok (repairBlocks s.document.blocks).changed
          (s.afterRepairs (repairBlocks s.document.blocks)) := by
  unfold Job.repairFormulas
  rw [Job.run_bind]
  change (_ >>= _ : Job Nat).run s = _
  rw [Session.afterRepairs, ← foldl_register]
  cases (repairBlocks s.document.blocks).fault? with
  | some fault => rfl
  | none => rfl

/-- **What the repair of a document does.** If every formula can be read, it
ends with the number of those whose text was not in order; then each formula has
its repaired text, nothing else in the document has changed, and the names of
the formulas are registered in document order. A second repair ends with zero
and changes nothing. If a formula cannot be read, it stops with the fault of the
first such formula, which says its name; then exactly the formulas before it are
mended and registered, and the document from it on is as it was. -/
theorem repairFormulas_mends (s : Session) :
    ((∀ o ∈ s.document.objects .formula, o.IsReadable) →
      ∃ s' blocks,
        Job.repairFormulas.run s =
          .ok ((s.document.objects .formula).countP EmbeddedObject.needsRepair) s' ∧
        s'.document = { s.document with blocks } ∧
        List.Forall₂ Block.Repaired s.document.blocks blocks ∧
        s'.journal = { s.journal with
          formulas := s.journal.formulas ++ (s.document.objects .formula).map (·.name) } ∧
        ∀ t : Session, t.document = s'.document →
          ∃ t', Job.repairFormulas.run t = .ok 0 t' ∧ t'.document = t.document) ∧
    ((¬ ∀ o ∈ s.document.objects .formula, o.IsReadable) →
      ∃ front o back fault s' blocks,
        s.document.blocks = front ++ .object o :: back ∧ o.kind = .formula ∧
        (∀ o' ∈ formulasOf front, o'.IsReadable) ∧ o.formulaText = .error fault ∧
        fault.object = o.name ∧
        Job.repairFormulas.run s = .error (.property fault) s' ∧
        s'.document = { s.document with blocks := blocks ++ .object o :: back } ∧
        List.Forall₂ Block.Repaired front blocks ∧
        s'.journal = { s.journal with
          formulas := s.journal.formulas ++ (formulasOf front).map (·.name) }) := by
  rw [objects_formula]
  constructor
  · intro hread
    obtain ⟨hblocks, hnames, hchanged, hfault⟩ := repairBlocks_of_readable hread
    refine ⟨s.afterRepairs (repairBlocks s.document.blocks), _, ?_, rfl, hblocks, ?_, ?_⟩
    · rw [repairFormulas_run, hfault, hchanged]
    · rw [Session.afterRepairs, hnames]
    · intro t ht
      have hinOrder : ∀ o ∈ formulasOf t.document.blocks,
          ∃ text, o.formulaText = .ok text ∧ Formula.repair text = text := by
        rw [ht]
        exact inOrder_of_repaired hblocks hread
      obtain ⟨hsame, hzero, hfault'⟩ := repairBlocks_of_inOrder hinOrder
      refine ⟨t.afterRepairs (repairBlocks t.document.blocks), ?_, ?_⟩
      · rw [repairFormulas_run, hfault', hzero]
      · rw [Session.afterRepairs, hsame]
  · intro hread
    obtain ⟨front, o, back, fault, hsplit, hkind, hfront, htext⟩ := exists_first_unreadable hread
    obtain ⟨hblocks, hnames, -, -⟩ := repairBlocks_of_readable hfront
    have hrepairs : repairBlocks s.document.blocks =
        (repairBlocks front).followedBy { blocks := .object o :: back, fault? := some fault } := by
      rw [hsplit, repairBlocks_append hfront, repairBlocks_cons_error (formula?_object hkind) htext]
    refine ⟨front, o, back, fault, s.afterRepairs (repairBlocks s.document.blocks), _, hsplit,
      hkind, hfront, htext, EmbeddedObject.object_of_formulaText htext, ?_, ?_, hblocks, ?_⟩
    · rw [repairFormulas_run, hrepairs]
      rfl
    · rw [hrepairs]
      rfl
    · rw [hrepairs, ← hnames]
      simp [Session.afterRepairs, Repairs.followedBy]

/-- Two formulas around a paragraph, the first of them not in order. -/
def readableFormulas : Session where
  document := .ofBlocks "doc" [.object (.formula "F1" "A # cdot B"), .paragraph (.plain "= #"),
    .object (.formula "F2" "x + y")]

/-- Three formulas, the second without a text. -/
def unreadableFormula : Session where
  document := .ofBlocks "doc" [.object (.formula "F1" "A # cdot B"),
    .object ((EmbeddedObject.formula "F2" "x").setProperty EmbeddedObject.formulaProperty
      (.boolean true)),
    .object (.formula "F3" "= #")]

/-- The first document is repaired once, the second up to its second formula. -/
theorem mends_upToUnreadable :
    (∀ o ∈ readableFormulas.document.objects .formula, o.IsReadable) ∧
    (∃ s' t', Job.repairFormulas.run readableFormulas = .ok 1 s' ∧
      s'.journal.formulas = ["F1", "F2"] ∧ Job.repairFormulas.run s' = .ok 0 t' ∧
      t'.document = s'.document) ∧
    (¬ ∀ o ∈ unreadableFormula.document.objects .formula, o.IsReadable) ∧
    ∃ front o back fault s' blocks,
      unreadableFormula.document.blocks = front ++ .object o :: back ∧
      Job.repairFormulas.run unreadableFormula = .error (.property fault) s' ∧
      fault = .notText "F2" "Formula" (.boolean true) ∧ o.name = "F2" ∧
      s'.document.blocks = blocks ++ .object o :: back ∧
      List.Forall₂ Block.Repaired front blocks := by
  have hread : ∀ o ∈ readableFormulas.document.objects .formula, o.IsReadable := by decide +kernel
  have hunread : ¬ ∀ o ∈ unreadableFormula.document.objects .formula, o.IsReadable := by
    decide +kernel
  have hcount :
      (readableFormulas.document.objects .formula).countP EmbeddedObject.needsRepair = 1 := by
    decide +kernel
  have hfault : Job.repairFormulas.Ends unreadableFormula (fun _ _ => False)
      (· = .property (.notText "F2" "Formula" (.boolean true))) := by decide +kernel
  refine ⟨hread, ?_, hunread, ?_⟩
  · obtain ⟨s', -, hrun, -, -, hjournal, hagain⟩ := (repairFormulas_mends readableFormulas).1 hread
    obtain ⟨t', hrun', hsame⟩ := hagain s' rfl
    rw [hcount] at hrun
    exact ⟨s', t', hrun, by rw [hjournal]; rfl, hrun', hsame⟩
  · obtain ⟨front, o, back, fault, s', blocks, hsplit, -, -, -, hname, hrun, hdocument, hblocks,
      -⟩ := (repairFormulas_mends unreadableFormula).2 hunread
    rw [Job.Ends, hrun] at hfault
    obtain rfl : fault = _ := Fault.property.inj hfault
    exact ⟨front, o, back, _, s', blocks, hsplit, hrun, rfl, hname.symm, by rw [hdocument], hblocks⟩

end Compositor
