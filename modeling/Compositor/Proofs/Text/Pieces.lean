/-
# Pieces of a text that was cut

A recogniser is local if an occurrence is one whatever follows it. Then a
text may be parted at an occurrence: the piece before it holds the
occurrences before it and no others, and the piece behind it those behind
it. So parting a text makes no occurrence and loses none but those it is
parted at.

Key definitions: `Recogniser.IsLocal`, `Recogniser.Cuts`.
Key theorems: `cuts_cons_iff`, `Cuts.before`, `Cuts.behind`,
`isLocal_includeRecogniser`.
-/
import Compositor.Macro.Token
import Compositor.Proofs.Text.Occurrences

namespace Compositor.Text

namespace Cut

theorem text_cons_eq (o : Occurrence) (os : List Occurrence) (rest : List Char) :
    text ⟨o :: os, rest⟩ = o.gap ++ o.found ++ text ⟨os, rest⟩ := by
  simp [text]

theorem text_append_cons (os os' : List Occurrence) (o : Occurrence) (rest : List Char) :
    text ⟨os ++ o :: os', rest⟩ = text ⟨os, o.gap⟩ ++ (o.found ++ text ⟨os', rest⟩) := by
  simp [text]

theorem skip_eq_nil {a : Char} {c : Cut} {rest : List Char} (h : c.skip a = ⟨[], rest⟩) :
    ∃ w, rest = a :: w ∧ c = ⟨[], w⟩ := by
  obtain ⟨os, w⟩ := c
  cases os with
  | nil => exact ⟨w, (Cut.mk.inj h).2.symm, rfl⟩
  | cons o os => cases (Cut.mk.inj h).1

theorem skip_eq_cons {a : Char} {c : Cut} {gap found : List Char} {os : List Occurrence}
    {rest : List Char} (h : c.skip a = ⟨⟨gap, found⟩ :: os, rest⟩) :
    ∃ g, gap = a :: g ∧ c = ⟨⟨g, found⟩ :: os, rest⟩ := by
  obtain ⟨os', w⟩ := c
  cases os' with
  | nil => cases (Cut.mk.inj h).1
  | cons o os' =>
    obtain ⟨hos, rfl⟩ := Cut.mk.inj h
    obtain ⟨ho, rfl⟩ := List.cons.inj hos
    obtain ⟨rfl, rfl⟩ := Occurrence.mk.inj ho
    exact ⟨o.gap, rfl, rfl⟩

end Cut

namespace Recogniser

variable (r : Recogniser)

/-- An occurrence is found by its own text, whatever follows. -/
def IsLocal : Prop :=
  ∀ {s found rest}, r.find s = some (found, rest) → ∀ t, r.find (found ++ t) = some (found, t)

/-- The recogniser itself cuts the text like that. -/
def Cuts (c : Cut) : Prop := r.cutBy c.text = c

variable {r}

theorem find_nil : r.find [] = none := by
  cases h : r.find [] with
  | none => rfl
  | some p =>
    have happ := r.append_of_find h
    exact absurd (List.append_eq_nil_iff.mp happ).1 (r.ne_nil_of_find h)

/-- What is found in a text is found in any longer one. -/
theorem IsLocal.find_append (hr : r.IsLocal) {s found rest : List Char}
    (h : r.find s = some (found, rest)) (t : List Char) :
    r.find (s ++ t) = some (found, rest ++ t) := by
  rw [← r.append_of_find h, List.append_assoc]
  exact hr h (rest ++ t)

theorem IsLocal.find_eq_none (hr : r.IsLocal) {s t : List Char} (h : r.find (s ++ t) = none) :
    r.find s = none := by
  cases hs : r.find s with
  | none => rfl
  | some p =>
    rw [hr.find_append hs t] at h
    cases h

theorem cutBy_of_find_some {s found rest : List Char} (h : r.find s = some (found, rest)) :
    r.cutBy s = (r.cutBy rest).cons [] found := by
  cases s with
  | nil =>
    rw [find_nil] at h
    cases h
  | cons c s =>
    rw [cutBy]
    split
    · rename_i found' rest' hfind
      rw [h] at hfind
      obtain ⟨rfl, rfl⟩ := Prod.mk.inj (Option.some.inj hfind)
      rfl
    · rename_i hfind
      rw [h] at hfind
      cases hfind

theorem cutBy_of_find_none {c : Char} {s : List Char} (h : r.find (c :: s) = none) :
    r.cutBy (c :: s) = (r.cutBy s).skip c := by
  rw [cutBy]
  split
  · rename_i hfind
    rw [h] at hfind
    cases hfind
  · rfl

/-! ### Cuts, occurrence by occurrence -/

/-- Without an occurrence, nothing is found anywhere. -/
theorem cuts_nil_iff {rest : List Char} :
    r.Cuts ⟨[], rest⟩ ↔ ∀ u v, rest = u ++ v → r.find v = none := by
  have htext : Cut.text ⟨[], rest⟩ = rest := List.nil_append rest
  rw [Cuts, htext]
  clear htext
  constructor
  · intro h u v hrest
    subst hrest
    induction u with
    | nil =>
      cases hv : r.find v with
      | none => rfl
      | some p =>
        rw [List.nil_append, cutBy_of_find_some hv] at h
        cases h
    | cons c u ih =>
      rw [List.cons_append] at h
      cases hc : r.find (c :: (u ++ v)) with
      | some p =>
        rw [cutBy_of_find_some hc] at h
        cases h
      | none =>
        rw [cutBy_of_find_none hc] at h
        obtain ⟨w, hw, hcut⟩ := Cut.skip_eq_nil h
        rw [← (List.cons.inj hw).2] at hcut
        exact ih hcut
  · intro h
    induction rest with
    | nil => rw [cutBy]
    | cons c rest ih =>
      rw [cutBy_of_find_none (h [] (c :: rest) rfl),
        ih fun u v hrest => h (c :: u) v (congrArg (c :: ·) hrest)]
      rfl

/-- With an occurrence, nothing is found in the gap before it, it is found
there, and the rest is cut as a text of its own. -/
theorem cuts_cons_iff {o : Occurrence} {os : List Occurrence} {rest : List Char} :
    r.Cuts ⟨o :: os, rest⟩ ↔
      (∀ u v, o.gap = u ++ v → v ≠ [] → r.find (v ++ o.found ++ Cut.text ⟨os, rest⟩) = none) ∧
        r.find (o.found ++ Cut.text ⟨os, rest⟩) = some (o.found, Cut.text ⟨os, rest⟩) ∧
        r.Cuts ⟨os, rest⟩ := by
  obtain ⟨gap, found⟩ := o
  rw [Cuts, Cut.text_cons_eq]
  dsimp only
  constructor
  · intro h
    induction gap with
    | nil =>
      refine ⟨fun u v hgap hv => absurd (List.append_eq_nil_iff.mp hgap.symm).2 hv, ?_⟩
      rw [List.nil_append] at h
      generalize hs : found ++ Cut.text ⟨os, rest⟩ = s at h ⊢
      cases hfind : r.find s with
      | none =>
        cases s with
        | nil =>
          rw [cutBy] at h
          cases h
        | cons c s =>
          rw [cutBy_of_find_none hfind] at h
          obtain ⟨g, hg, -⟩ := Cut.skip_eq_cons h
          cases hg
      | some p =>
        obtain ⟨found', rest'⟩ := p
        rw [cutBy_of_find_some hfind] at h
        obtain ⟨hall, hrest⟩ := Cut.mk.inj h
        obtain ⟨ho, hos⟩ := List.cons.inj hall
        obtain ⟨-, rfl⟩ := Occurrence.mk.inj ho
        have happ := r.append_of_find hfind
        rw [← hs] at happ
        have hrest' : rest' = Cut.text ⟨os, rest⟩ := List.append_cancel_left happ
        subst hrest'
        refine ⟨rfl, ?_⟩
        show (⟨(r.cutBy _).occurrences, (r.cutBy _).rest⟩ : Cut) = ⟨os, rest⟩
        rw [hos, hrest]
    | cons c gap ih =>
      rw [List.cons_append, List.cons_append] at h
      cases hfind : r.find (c :: (gap ++ found ++ Cut.text ⟨os, rest⟩)) with
      | some p =>
        rw [cutBy_of_find_some hfind] at h
        have ho := (List.cons.inj (Cut.mk.inj h).1).1
        cases (Occurrence.mk.inj ho).1
      | none =>
        rw [cutBy_of_find_none hfind] at h
        obtain ⟨g, hg, hcut⟩ := Cut.skip_eq_cons h
        rw [← (List.cons.inj hg).2] at hcut
        obtain ⟨hgap, hfound⟩ := ih hcut
        refine ⟨fun u v huv hv => ?_, hfound⟩
        cases u with
        | nil =>
          obtain rfl : c :: gap = v := huv
          exact hfind
        | cons a u => exact hgap u v (List.cons.inj huv).2 hv
  · rintro ⟨hgap, hfound, hrest⟩
    induction gap with
    | nil =>
      rw [List.nil_append, cutBy_of_find_some hfound, hrest]
      rfl
    | cons c gap ih =>
      have hnone : r.find (c :: (gap ++ found ++ Cut.text ⟨os, rest⟩)) = none :=
        hgap [] (c :: gap) rfl (List.cons_ne_nil c gap)
      rw [List.cons_append, List.cons_append, cutBy_of_find_none hnone, ih]
      · rfl
      · exact fun u v hv => hgap (c :: u) v (congrArg (c :: ·) hv)

/-! ### Pieces -/

/-- The text behind an occurrence. -/
theorem Cuts.behind {os os' : List Occurrence} {o : Occurrence} {rest : List Char}
    (h : r.Cuts ⟨os ++ o :: os', rest⟩) : r.Cuts ⟨os', rest⟩ := by
  induction os with
  | nil => exact (cuts_cons_iff.mp h).2.2
  | cons o' os ih => exact ih (cuts_cons_iff.mp h).2.2

/-- The text before an occurrence. -/
theorem Cuts.before (hr : r.IsLocal) {os os' : List Occurrence} {o : Occurrence}
    {rest : List Char} (h : r.Cuts ⟨os ++ o :: os', rest⟩) : r.Cuts ⟨os, o.gap⟩ := by
  induction os with
  | nil =>
    obtain ⟨hgap, -, -⟩ := cuts_cons_iff.mp h
    refine cuts_nil_iff.mpr fun u v huv => ?_
    cases v with
    | nil => exact find_nil
    | cons c v =>
      have hnone := hgap u (c :: v) huv (List.cons_ne_nil c v)
      rw [List.append_assoc] at hnone
      exact hr.find_eq_none hnone
  | cons o' os ih =>
    obtain ⟨hgap, hfound, hrest⟩ := cuts_cons_iff.mp h
    refine cuts_cons_iff.mpr ⟨fun u v huv hv => ?_, hr hfound _, ih hrest⟩
    have hnone := hgap u v huv hv
    have htext : Cut.text ⟨os.append (o :: os'), rest⟩ =
        Cut.text ⟨os, o.gap⟩ ++ (o.found ++ Cut.text ⟨os', rest⟩) :=
      Cut.text_append_cons os os' o rest
    rw [htext, ← List.append_assoc] at hnone
    exact hr.find_eq_none hnone

end Recogniser

/-! ### Directives -/

open Macro

theorem argument?_append {s argument rest : List Char} (h : argument? s = some (argument, rest))
    (t : List Char) : argument? (argument ++ ')' :: '%' :: t) = some (argument, t) := by
  fun_induction argument? s generalizing argument rest with
  | case1 => cases h
  | case2 => cases h; rfl
  | case3 => cases h
  | case4 c s hend hc ih =>
    obtain ⟨⟨a, r⟩, ha, he⟩ := Option.map_eq_some_iff.mp h
    cases he
    have hs := append_of_argument? ha
    -- no end of the argument comes about where there was none
    have hend' : ∀ w, c = ')' → a ++ ')' :: '%' :: t = '%' :: w → False := by
      intro w hparen hw
      cases a with
      | nil => cases hw
      | cons b a =>
        obtain ⟨rfl, -⟩ := List.cons.inj hw
        exact hend _ hparen hs
    rw [List.cons_append, argument?, if_neg hc, ih ha]
    · rfl
    · exact hend'

/-- A directive ends where it ends, whatever follows. -/
theorem isLocal_includeRecogniser : includeRecogniser.IsLocal := by
  intro s found rest h t
  simp only [includeRecogniser] at h ⊢
  obtain ⟨⟨a, r⟩, ha, he⟩ := Option.map_eq_some_iff.mp h
  obtain ⟨v, -, hv⟩ := Option.bind_eq_some_iff.mp ha
  obtain ⟨rfl, rfl⟩ := Prod.mk.inj he
  have hstart : after? includeStart (includeStart ++ (a ++ ')' :: '%' :: t)) =
      some (a ++ ')' :: '%' :: t) := after?_eq_some_iff.mpr rfl
  have htext : includeStart ++ a ++ [')', '%'] ++ t = includeStart ++ (a ++ ')' :: '%' :: t) := by
    simp only [List.append_assoc, List.cons_append, List.nil_append]
  rw [htext, hstart, Option.bind_some, argument?_append hv]
  rfl

end Compositor.Text
