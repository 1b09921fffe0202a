/-
# Replacements in either order

Replacing text in runs does not look at formats. So each run may be given a
format of its own first. Then the format of a character says which run it is in,
and runs that are not empty are known by their text; and the text that two
replacements make does not depend on which of them is made first. Taking the
formats back, neither do the runs.

Key definitions: `Run.reformat`, `Run.relabel`.
Key theorems: `Run.replace_map_reformat`, `Run.formats_replace`,
`Run.eq_of_styled_eq`, `Run.map_reformat_relabel`, `Run.replace_comm`.
-/
import Compositor.Proofs.Document.Replacing
import Compositor.Proofs.Document.Search

namespace Compositor
open Text

namespace Run

/-! ### Formats do not matter -/

/-- The run in another format. -/
def reformat (f : TextFormat → TextFormat) (r : Run) : Run := { r with format := f r.format }

theorem kept_reformat (f : TextFormat → TextFormat) (r : Run) :
    (r.reformat f).kept = r.kept.map (reformat f) := by
  unfold kept
  split
  · rename_i h
    rw [if_pos (show r.isEmpty = true from h)]
    rfl
  · rename_i h
    rw [if_neg (show ¬ r.isEmpty = true from h)]
    rfl

theorem dropBytes_map_reformat (f : TextFormat → TextFormat) (n : Nat) (runs : List Run) :
    dropBytes n (runs.map (reformat f)) = (dropBytes n runs).map (reformat f) := by
  induction runs generalizing n with
  | nil => rfl
  | cons r rs ih =>
    rw [List.map_cons, dropBytes, dropBytes, List.map_append, ← kept_reformat]
    exact congrArg _ (ih _)

theorem replaceInside_map_reformat (f : TextFormat → TextFormat) (new : List Char)
    (start stop : Nat) (runs : List Run) :
    replaceInside new start stop (runs.map (reformat f)) =
      (replaceInside new start stop runs).map (List.map (reformat f)) := by
  induction runs generalizing start stop with
  | nil => rfl
  | cons r rs ih =>
    have hchars : (r.reformat f).chars = r.chars := rfl
    rw [List.map_cons, replaceInside, replaceInside, hchars]
    split
    · rw [Option.map_some, List.map_append, ← kept_reformat, ← dropBytes_map_reformat]
      rfl
    · rw [ih, Option.map_map, Option.map_map, kept_reformat]
      refine congrArg (Option.map · _) (funext fun rest => ?_)
      exact List.map_append.symm

/-- A replacement that starts within the text does not look at formats. -/
theorem replace_map_reformat (f : TextFormat → TextFormat) (new : List Char) {start stop : Nat}
    {runs : List Run} (h : start < size (allChars runs)) :
    replace new start stop (runs.map (reformat f)) =
      (replace new start stop runs).map (reformat f) := by
  have hsome : replaceInside new start stop runs ≠ none := fun hnone =>
    Nat.not_lt.mpr (replaceInside_eq_none_iff.mp hnone) h
  obtain ⟨replaced, hreplaced⟩ := Option.ne_none_iff_exists'.mp hsome
  unfold replace
  rw [replaceInside_map_reformat, hreplaced]
  rfl

/-! ### Formats that are left -/

theorem formats_kept (r : Run) : (r.kept.map Run.format).Sublist [r.format] := by
  unfold kept
  split
  · exact List.nil_sublist _
  · exact List.Sublist.refl _

theorem formats_dropBytes (n : Nat) (runs : List Run) :
    ((dropBytes n runs).map Run.format).Sublist (runs.map Run.format) := by
  induction runs generalizing n with
  | nil => exact List.Sublist.refl _
  | cons r rs ih =>
    rw [dropBytes, List.map_append]
    exact (formats_kept _).append (ih _)

theorem formats_replaceInside {new : List Char} {start stop : Nat} {runs replaced : List Run}
    (h : replaceInside new start stop runs = some replaced) :
    (replaced.map Run.format).Sublist (runs.map Run.format) := by
  induction runs generalizing start stop replaced with
  | nil => cases h
  | cons r rs ih =>
    rw [replaceInside] at h
    split at h
    · obtain rfl := Option.some.inj h
      rw [List.map_append]
      exact (formats_kept _).append (formats_dropBytes _ rs)
    · obtain ⟨rest, hrest, rfl⟩ := Option.map_eq_some_iff.mp h
      rw [List.map_append]
      exact (formats_kept r).append (ih hrest)

/-- A replacement that starts within the text brings in no run: those left are
some of the runs there were, in their order. -/
theorem formats_replace (new : List Char) {start stop : Nat} {runs : List Run}
    (h : start < size (allChars runs)) :
    ((replace new start stop runs).map Run.format).Sublist (runs.map Run.format) := by
  have hsome : replaceInside new start stop runs ≠ none := fun hnone =>
    Nat.not_lt.mpr (replaceInside_eq_none_iff.mp hnone) h
  obtain ⟨replaced, hreplaced⟩ := Option.ne_none_iff_exists'.mp hsome
  unfold replace
  rw [hreplaced]
  exact formats_replaceInside hreplaced

/-! ### Runs in formats of their own -/

theorem format_of_mem_styled {r : Run} {c : Char × TextFormat} (h : c ∈ r.styled) :
    c.2 = r.format := by
  obtain ⟨x, -, rfl⟩ := List.mem_map.mp h
  rfl

theorem eq_of_styled_eq_of_format_eq {r r' : Run} (hstyled : r.styled = r'.styled)
    (hformat : r.format = r'.format) : r = r' := by
  have hchars : r.chars = r'.chars := by
    rw [← chars_styled, ← chars_styled, hstyled]
  have htext : r.text = r'.text := String.toList_inj.mp hchars
  cases r
  cases r'
  exact Run.mk.injEq .. ▸ ⟨htext, hformat⟩

/-- A run that is not empty ends where its format does, if no run behind it has
that format. -/
theorem styled_eq_of_append_eq {r r' : Run} {rs : List Run} {rest m : Styled}
    (hformat : r.format = r'.format) (hfree : r.format ∉ rs.map Run.format)
    (hr' : r'.styled = r.styled ++ m) (hrs : rs.flatMap styled = m ++ rest) : m = [] := by
  cases m with
  | nil => rfl
  | cons c m =>
    have hc : c ∈ r'.styled := by simp [hr']
    have hmem : c ∈ rs.flatMap styled := by simp [hrs]
    obtain ⟨q, hq, hcq⟩ := List.mem_flatMap.mp hmem
    have hsame : q.format = r.format := by
      rw [← format_of_mem_styled hcq, format_of_mem_styled hc, hformat]
    exact absurd (hsame ▸ List.mem_map_of_mem hq) hfree

/-- Runs in distinct formats, none of them empty, are known by their text. -/
theorem eq_of_styled_eq {runs runs' : List Run} (hdistinct : (runs.map Run.format).Nodup)
    (hdistinct' : (runs'.map Run.format).Nodup) (hruns : ∀ r ∈ runs, r.isEmpty = false)
    (hruns' : ∀ r ∈ runs', r.isEmpty = false)
    (h : runs.flatMap styled = runs'.flatMap styled) : runs = runs' := by
  induction runs generalizing runs' with
  | nil =>
    cases runs' with
    | nil => rfl
    | cons r' rs' =>
      have hnil := List.flatMap_eq_nil_iff.mp h.symm r' List.mem_cons_self
      exact absurd hnil (styled_ne_nil (hruns' r' List.mem_cons_self))
  | cons r rs ih =>
    cases runs' with
    | nil =>
      have hnil := List.flatMap_eq_nil_iff.mp h r List.mem_cons_self
      exact absurd hnil (styled_ne_nil (hruns r List.mem_cons_self))
    | cons r' rs' =>
      obtain ⟨hfree, hrest⟩ := List.nodup_cons.mp hdistinct
      obtain ⟨hfree', hrest'⟩ := List.nodup_cons.mp hdistinct'
      rw [List.flatMap_cons, List.flatMap_cons] at h
      -- the first character is in the first run of both
      have hformat : r.format = r'.format := by
        obtain ⟨c, t, hc⟩ := List.exists_cons_of_ne_nil (styled_ne_nil (hruns r List.mem_cons_self))
        obtain ⟨c', t', hc'⟩ :=
          List.exists_cons_of_ne_nil (styled_ne_nil (hruns' r' List.mem_cons_self))
        have hfirst : c = c' := by
          rw [hc, hc'] at h
          exact (List.cons.inj h).1
        have hmem : c ∈ r.styled := by simp [hc]
        have hmem' : c ∈ r'.styled := by simp [hc', hfirst]
        rw [← format_of_mem_styled hmem, format_of_mem_styled hmem']
      obtain ⟨hstyled, htail⟩ :
          r.styled = r'.styled ∧ rs.flatMap styled = rs'.flatMap styled := by
        rcases List.append_eq_append_iff.mp h with ⟨m, hm, hrs⟩ | ⟨m, hm, hrs⟩
        · obtain rfl := styled_eq_of_append_eq hformat hfree hm hrs
          simp_all
        · obtain rfl := styled_eq_of_append_eq hformat.symm hfree' hm hrs
          simp_all
      rw [eq_of_styled_eq_of_format_eq hstyled hformat,
        ih hrest hrest' (fun q hq => hruns q (List.mem_cons_of_mem r hq))
          (fun q hq => hruns' q (List.mem_cons_of_mem r' hq)) htail]

/-- A format for each number. -/
def label (i : Nat) : TextFormat := { color := some (String.ofList (List.replicate i 'x')) }

/-- The number of a label. -/
def labelled (f : TextFormat) : Nat := ((f.color.getD "").toList).length

theorem labelled_label (i : Nat) : labelled (label i) = i := by
  simp [labelled, label]

/-- The runs, each in a format of its own. -/
def relabel (runs : List Run) : List Run :=
  runs.zipIdx.map fun (r, i) => { r with format := label i }

theorem nodup_formats_relabel (runs : List Run) : ((relabel runs).map Run.format).Nodup := by
  rw [relabel, List.map_map]
  refine List.pairwise_map.mpr ((pairwise_zipIdx runs).imp fun {a b} hne hlabel => hne ?_)
  rw [← labelled_label a.2, ← labelled_label b.2]
  exact congrArg labelled hlabel

/-- The format that a run had under a label. -/
def formatUnder (runs : List Run) (f : TextFormat) : TextFormat :=
  ((runs[labelled f]?).map Run.format).getD {}

theorem map_reformat_relabel (runs : List Run) :
    (relabel runs).map (reformat (formatUnder runs)) = runs := by
  refine List.ext_getElem? fun i => ?_
  rw [relabel, List.map_map, List.getElem?_map, List.getElem?_zipIdx]
  cases hr : runs[i]? with
  | none => rfl
  | some r =>
    simp [reformat, formatUnder, labelled_label, hr]

/-! ### Two replacements -/

theorem start_lt_size {a y b : Styled} {runs : List Run} (hy : y ≠ [])
    (h : runs.flatMap styled = a ++ y ++ b) : size a.chars < size (allChars runs) := by
  have hchars : y.chars ≠ [] := fun hnil => hy (List.map_eq_nil_iff.mp hnil)
  have := mt size_eq_zero_iff.mp hchars
  rw [← chars_flatMap_styled, h, Styled.chars_append, Styled.chars_append, size_append, size_append]
  omega

/-- A replacement in runs, carried over to other formats. -/
theorem replace_map_of_styled (f : TextFormat → TextFormat) (new : List Char) {a y b : Styled}
    {runs : List Run} (hy : y ≠ []) (h : runs.flatMap styled = a ++ y ++ b) :
    replace new (size a.chars) (size (a.chars ++ y.chars)) (runs.map (reformat f)) =
      (replace new (size a.chars) (size (a.chars ++ y.chars)) runs).map (reformat f) :=
  replace_map_reformat f new (start_lt_size hy h)

/-- The first replacement in front of the second one, in either order, where each run has
a format of its own: both orders make one text, and by it the runs are known. -/
theorem replace_comm_of_nodup {a x m y b : Styled} {runs : List Run}
    (hdistinct : (runs.map Run.format).Nodup) (hx : x ≠ []) (hy : y ≠ [])
    (h : runs.flatMap styled = a ++ x ++ m ++ y ++ b) (new new' : List Char)
    (f : TextFormat → TextFormat) :
    replace new' (size (a.chars ++ new ++ m.chars)) (size (a.chars ++ new ++ m.chars ++ y.chars))
        (replace new (size a.chars) (size (a.chars ++ x.chars)) (runs.map (reformat f))) =
      replace new (size a.chars) (size (a.chars ++ x.chars))
        (replace new' (size (a.chars ++ x.chars ++ m.chars))
          (size (a.chars ++ x.chars ++ m.chars ++ y.chars)) (runs.map (reformat f))) := by
  have hfront : runs.flatMap styled = a ++ x ++ (m ++ y ++ b) := by
    rw [h]
    simp only [List.append_assoc]
  have hback : runs.flatMap styled = (a ++ x ++ m : Styled) ++ y ++ b := h
  have hchars : (a ++ x ++ m : Styled).chars = a.chars ++ x.chars ++ m.chars := by
    rw [Styled.chars_append, Styled.chars_append]
  have hchars' : (a ++ x.inFormatOf new ++ m : Styled).chars = a.chars ++ new ++ m.chars := by
    rw [Styled.chars_append, Styled.chars_append, Styled.chars_inFormatOf]
  rw [← hchars, ← hchars']
  have hfirst := styled_replace hx new hfront
  have hsecond := styled_replace hy new' hback
  have hfirst' : (replace new (size a.chars) (size (a.chars ++ x.chars)) runs).flatMap styled =
      (a ++ x.inFormatOf new ++ m : Styled) ++ y ++ b := by
    rw [hfirst]
    simp only [List.append_assoc]
  have hsecond' : (replace new' (size (a ++ x ++ m : Styled).chars)
      (size ((a ++ x ++ m : Styled).chars ++ y.chars)) runs).flatMap styled =
        a ++ x ++ (m ++ y.inFormatOf new' ++ b) := by
    rw [hsecond]
    simp only [List.append_assoc]
  rw [replace_map_of_styled f new hx hfront, replace_map_of_styled f new' hy hfirst',
    replace_map_of_styled f new' hy hback, replace_map_of_styled f new hx hsecond']
  refine congrArg _ (eq_of_styled_eq ?_ ?_ (fun _ => isEmpty_of_mem_replace)
    (fun _ => isEmpty_of_mem_replace) ?_)
  · exact hdistinct.sublist ((formats_replace new' (start_lt_size hy hfirst')).trans
      (formats_replace new (start_lt_size hx hfront)))
  · exact hdistinct.sublist ((formats_replace new (start_lt_size hx hsecond')).trans
      (formats_replace new' (start_lt_size hy hback)))
  · rw [styled_replace hy new' hfirst', styled_replace hx new hsecond']
    simp only [List.append_assoc]

/-- Two replacements, the first in front of the second one, can be made in
either order. -/
theorem replace_comm {u x m y v : List Char} {runs : List Run} (hx : x ≠ []) (hy : y ≠ [])
    (h : allChars runs = u ++ x ++ m ++ y ++ v) (new new' : List Char) :
    replace new' (size (u ++ new ++ m)) (size (u ++ new ++ m ++ y))
        (replace new (size u) (size (u ++ x)) runs) =
      replace new (size u) (size (u ++ x))
        (replace new' (size (u ++ x ++ m)) (size (u ++ x ++ m ++ y)) runs) := by
  have hlabelled : Styled.chars ((relabel runs).flatMap styled) = u ++ x ++ m ++ y ++ v := by
    have hchars : allChars ((relabel runs).map (reformat (formatUnder runs))) =
        allChars (relabel runs) := List.flatMap_map _ _ _
    rw [chars_flatMap_styled, ← hchars, map_reformat_relabel, h]
  obtain ⟨front, y, b, hparts, hfront, rfl, rfl⟩ := Styled.exists_parts hlabelled
  obtain ⟨a, x, m, rfl, rfl, rfl, rfl⟩ := Styled.exists_parts hfront
  have hcomm := replace_comm_of_nodup (nodup_formats_relabel runs)
    (fun hnil => hx (congrArg Styled.chars hnil)) (fun hnil => hy (congrArg Styled.chars hnil))
    hparts new new' (formatUnder runs)
  rwa [map_reformat_relabel] at hcomm

end Run
end Compositor
