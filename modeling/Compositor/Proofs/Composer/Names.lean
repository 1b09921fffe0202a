/-
# Names in composed documents

Composing a document is steps, a repair of the formulas and a refresh of the
tables of contents. Steps keep the objects that are there and bring in others
under free names; the repair changes the text of formulas and registers their
names, in document order; the refresh changes no object. Hence the objects of
the outcome have distinct names if those of the template have, and the
formulas registered are its formulas.

Key definitions: `EmbeddedObject.label`, `Document.labels`, `Document.Inserts`.
Key theorems: `labels_repairBlocks`, `processTemplate_ends`, `names_distinct`.
-/
import Compositor.Proofs.Composer.Results
import Compositor.Proofs.Document.Names
import Compositor.Proofs.Macro.Advances

namespace Compositor
open Macro Job

/-! ### Labels -/

/-- What is never changed about an object in a document: its name and its
kind. -/
def EmbeddedObject.label (o : EmbeddedObject) : String × ObjectKind := (o.name, o.kind)

namespace Document

/-- The names and kinds of the objects, in document order. -/
def labels (d : Document) : List (String × ObjectKind) := d.allObjects.map EmbeddedObject.label

theorem map_fst_labels (d : Document) : d.labels.map Prod.fst = d.objectNames := by
  simp only [labels, objectNames, List.map_map, Function.comp_def, EmbeddedObject.label]

/-- The names of the objects of one kind. -/
def namesOfKind (d : Document) (kind : ObjectKind) : List String :=
  (d.objects kind).map (·.name)

theorem map_fst_filter_labels (d : Document) (kind : ObjectKind) :
    (d.labels.filter (·.2 = kind)).map Prod.fst = d.namesOfKind kind := by
  rw [labels, List.filter_map, List.map_map]
  rfl

theorem namesOfKind_sublist (d : Document) (kind : ObjectKind) :
    (d.namesOfKind kind).Sublist d.objectNames :=
  List.filter_sublist.map _

end Document

/-! ### The repair of formulas -/

theorem formulas_foldl_register (names : List String) (j : Journal) :
    (names.foldl Journal.register j).formulas = j.formulas ++ names := by
  induction names generalizing j with
  | nil => exact (List.append_nil _).symm
  | cons name names ih =>
    rw [List.foldl_cons, ih, Journal.register, List.append_assoc]
    rfl

theorem labels_repairBlocks (bs : List Block) :
    (objectsOf (repairBlocks bs).blocks).map EmbeddedObject.label =
      (objectsOf bs).map EmbeddedObject.label := by
  induction bs with
  | nil => rfl
  | cons b bs ih =>
    unfold repairBlocks
    split
    · -- no formula: the block stays as it is
      show (objectsOf (b :: (repairBlocks bs).blocks)).map _ = _
      cases hobject : b.object? with
      | none =>
        rw [objectsOf_cons_of_none hobject, objectsOf_cons_of_none hobject]
        exact ih
      | some o =>
        rw [objectsOf_cons_of_some hobject, objectsOf_cons_of_some hobject]
        exact congrArg (o.label :: ·) ih
    · rename_i o ho
      split
      · rfl
      · have hobject : b.object? = some o := (Option.filter_eq_some_iff.mp ho).1
        rw [objectsOf_cons_of_some hobject]
        exact congrArg (o.label :: ·) ih

/-- A repair that gets through has the names of all formulas. -/
theorem names_repairBlocks {bs : List Block} (h : (repairBlocks bs).fault? = none) :
    (repairBlocks bs).names = ((objectsOf bs).filter (·.kind = .formula)).map (·.name) := by
  induction bs with
  | nil => rfl
  | cons b bs ih =>
    unfold repairBlocks at h ⊢
    cases hformula : b.formula? with
    | none =>
      rw [hformula] at h
      have hrest : (repairBlocks bs).names = _ := ih h
      cases hobject : b.object? with
      | none =>
        rw [objectsOf_cons_of_none hobject]
        exact hrest
      | some o =>
        have hkind : ¬ o.kind = .formula := by
          intro hkind
          rw [Block.formula?, hobject, Option.filter_some,
            if_pos (decide_eq_true hkind)] at hformula
          cases hformula
        rw [objectsOf_cons_of_some hobject, List.filter_cons_of_neg (by simpa using hkind)]
        exact hrest
    | some o =>
      obtain ⟨hobject, hkind⟩ := Option.filter_eq_some_iff.mp hformula
      rw [hformula] at h
      dsimp only at h ⊢
      split at h
      · cases h
      · have hrest : (repairBlocks bs).names = _ := ih h
        rw [objectsOf_cons_of_some hobject, List.filter_cons_of_pos (by simpa using hkind)]
        exact congrArg (o.name :: ·) hrest

/-- A repair that ends has registered the formulas of the document. -/
theorem repairFormulas_ends (s : Session) :
    Job.repairFormulas.Ends s
      (fun _ s' => s'.document.labels = s.document.labels ∧
        s'.journal.formulas = s.journal.formulas ++ s.document.namesOfKind .formula)
      fun _ => True := by
  refine ends_bind (ends_get ?_)
  dsimp only
  cases hfault : (repairBlocks s.document.blocks).fault? with
  | some fault => trivial
  | none =>
    refine ⟨labels_repairBlocks s.document.blocks, ?_⟩
    rw [formulas_foldl_register, names_repairBlocks hfault]
    rfl

/-! ### Processing -/

/-- What processing does to the objects: those of the template stay under
their names, and the formulas registered are those of the document. -/
theorem processTemplate_ends (w : Workspace) (settings : Settings) (table : LookupTable)
    (mainText : List Block) (s : Session) :
    (processTemplate w settings table mainText).Ends s
      (fun _ s' => (∃ d, s.document.KeepsObjects d ∧ s'.document.labels = d.labels) ∧
        s'.journal.formulas = s.journal.formulas ++ s'.document.namesOfKind .formula)
      fun _ => True := by
  refine ends_bind (((advances_includeDocuments w settings.includeDepthLimit (some mainText)).ends
    s).mono (fun _ s₁ h₁ => ?_) fun _ => id)
  refine ends_bind (ends_get (ends_bind (ends_notify ?_)))
  refine ends_bind (((advances_run _).ends _).mono (fun _ s₂ h₂ => ?_) fun _ => id)
  refine ends_bind (ends_notify ?_)
  refine ends_bind ((repairFormulas_ends _).mono (fun _ s₃ h₃ => ?_) fun _ => id)
  refine ends_bind (ends_notify (ends_bind (ends_modifyDocument (ends_pure ?_))))
  obtain ⟨hlabels, hregistered⟩ := h₃
  have hkeeps : s.document.KeepsObjects s₂.document :=
    Document.keepsObjects_of_steps (h₁.steps.trans h₂.steps)
  have hrefresh : s₃.document.refreshContents.labels = s₂.document.labels := by
    rw [Document.labels, s₃.document.refreshContents_rewords.allObjects_eq]
    exact hlabels
  refine ⟨⟨s₂.document, hkeeps, hrefresh⟩, ?_⟩
  show s₃.journal.formulas = _
  rw [hregistered]
  show s₂.journal.formulas ++ s₂.document.namesOfKind .formula = _
  rw [h₂.formulas, ← Document.map_fst_filter_labels, ← Document.map_fst_filter_labels, hrefresh]
  show s₁.journal.formulas ++ _ = _
  rw [h₁.formulas]

/-- **Names stay distinct.** The search for a free name stops, at the first
number that is free. Insertions, any number of them and of any blocks, leave
the objects that are there as they are, under their names, and change nothing
but the name of those they bring in; if the names were distinct, they stay so.
Therefore a template whose objects have distinct names is composed to a
document whose objects have distinct names, and the formulas of the outcome are
the formulas of that document, each once and in document order. -/
theorem names_distinct :
    (∀ (taken : List String) (name : String), name ∈ taken →
      ∃ m, 2 ≤ m ∧ m ≤ taken.length + 2 ∧ (∀ k, 2 ≤ k → k < m → suffixed name k ∈ taken) ∧
        suffixed name m ∉ taken ∧ freshName taken name = suffixed name m) ∧
    (∀ (d : Document) (r : TextRange) (bs : List Block) (d' : Document) (e : Edit),
      d.splice r bs = .ok (d', e) →
      ∃ front adopted back, d.allObjects = front ++ back ∧
        d'.allObjects = front ++ adopted ++ back ∧
        List.Forall₂ (fun o o' : EmbeddedObject => o' = { o with name := o'.name })
          (if r.cell = none then objectsOf bs else []) adopted) ∧
    (∀ d d' : Document, Relation.ReflTransGen Document.Insertion d d' →
      d.allObjects.Sublist d'.allObjects ∧ (d.objectNames.Nodup → d'.objectNames.Nodup)) ∧
    (∀ (c : Composer) (w : Workspace) (template main : String) (d : Document)
      (outcome : Outcome), w.files.loadDocument template = .ok d → d.objectNames.Nodup →
      c.compose w template main = .ok outcome →
      d.objectNames.Sublist outcome.document.objectNames ∧ outcome.document.objectNames.Nodup ∧
        outcome.formulas = outcome.document.namesOfKind .formula ∧ outcome.formulas.Nodup) := by
  refine ⟨fun taken name h => freshName_of_mem h, fun d r bs d' e h => Document.allObjects_splice h,
    fun d d' h => ?_, ?_⟩
  · have hkeeps := Document.keepsObjects_of_insertions h
    exact ⟨hkeeps.sublist, hkeeps.nodup⟩
  · intro c w template main d outcome hload hd hcompose
    obtain ⟨mainText, d', passes, fixed, s', -, hload', hrun, rfl⟩ :=
      Composer.exists_of_compose hcompose
    rw [hload'] at hload
    cases hload
    have hends := processTemplate_ends w c.settings c.table (mainTextBlocks mainText)
      { document := d }
    rw [Ends, hrun] at hends
    obtain ⟨⟨d'', hkeeps, hlabels⟩, hformulas⟩ := hends
    have hnames : s'.document.objectNames = d''.objectNames := by
      rw [← Document.map_fst_labels, hlabels, Document.map_fst_labels]
    have hnodup : s'.document.objectNames.Nodup := by
      rw [hnames]
      exact hkeeps.nodup hd
    have hlisted : s'.journal.formulas = s'.document.namesOfKind .formula := by
      rw [hformulas]
      rfl
    refine ⟨?_, hnodup, hlisted, ?_⟩
    · rw [hnames]
      exact hkeeps.sublist.map _
    · show s'.journal.formulas.Nodup
      rw [hlisted]
      exact hnodup.sublist (s'.document.namesOfKind_sublist .formula)

/-- A template and a main text that both have a formula. -/
def twoFormulas : Workspace where
  files := {
    entries := [
      (["template.txt"], .file (.text "%MAIN_TEXT%\n\n$$a$$")),
      (["main.txt"], .file (.text "$$b$$"))] }
  base := "/"

theorem load_twoFormulas :
    (twoFormulas.files.loadDocument "template.txt").toOption.map (·.objectNames) =
      some ["Formula1"] := by decide +kernel

theorem compose_twoFormulas :
    (newYearComposer.compose twoFormulas "template.txt" "main.txt").toOption.map
      (·.document.objectNames) = some ["Formula1_2", "Formula1"] := by decide +kernel

/-- Both formulas are called `Formula1` in their files; the one of the main
text gets the first name that is free. -/
theorem names_twoFormulas :
    (∃ m, 2 ≤ m ∧ m ≤ 3 ∧ freshName ["Formula1"] "Formula1" = suffixed "Formula1" m) ∧
    ∃ d outcome, twoFormulas.files.loadDocument "template.txt" = .ok d ∧ d.objectNames.Nodup ∧
      newYearComposer.compose twoFormulas "template.txt" "main.txt" = .ok outcome ∧
      outcome.document.objectNames = ["Formula1_2", "Formula1"] ∧
      outcome.formulas = outcome.document.namesOfKind .formula ∧ outcome.formulas.Nodup := by
  obtain ⟨hsearch, -, -, hcompose⟩ := names_distinct
  obtain ⟨m, hm, hlast, -, -, hname⟩ := hsearch ["Formula1"] "Formula1" List.mem_cons_self
  refine ⟨⟨m, hm, hlast, hname⟩, ?_⟩
  obtain ⟨d, hd, hnames⟩ := Option.map_eq_some_iff.mp load_twoFormulas
  obtain ⟨outcome, houtcome, hcomposed⟩ := Option.map_eq_some_iff.mp compose_twoFormulas
  have hload : twoFormulas.files.loadDocument "template.txt" = .ok d := eq_ok_of_toOption hd
  have hok : newYearComposer.compose twoFormulas "template.txt" "main.txt" = .ok outcome :=
    eq_ok_of_toOption houtcome
  have hdistinct : d.objectNames.Nodup := by
    rw [hnames]
    decide
  obtain ⟨-, -, hformulas, hnodup⟩ := hcompose _ _ _ _ d outcome hload hdistinct hok
  exact ⟨d, outcome, hload, hdistinct, hok, hcomposed, hformulas, hnodup⟩

end Compositor
