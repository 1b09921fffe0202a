/-
# The format of new text

Text that replaces a slice takes the format of the character where the slice
starts, and all characters around the slice keep theirs, however the slice
lies in the runs: within one, or over several, from the middle of one to the
middle of another. At the end of the text no character is there, and new text
takes the format of the last one.

Key definitions: `Styled.inFormatOf`, `Styled.formatAt`.
Key theorems: `Run.styled_replaceHead`, `Run.styled_replaceAt`,
`Run.styled_replace`, `Run.allChars_replace`.
-/
import Compositor.Proofs.Document.Runs

namespace Compositor
open Text

namespace Styled

theorem chars_map_format (f : TextFormat) (s : List Char) :
    Styled.chars (s.map fun c => (c, f)) = s := by
  rw [chars, List.map_map]
  exact List.map_id s

/-- The characters in the format of the first character of a text. -/
def inFormatOf (x : Styled) (new : List Char) : Styled :=
  new.map fun c => (c, (x.head?.map Prod.snd).getD {})

theorem chars_inFormatOf (x : Styled) (new : List Char) : (x.inFormatOf new).chars = new :=
  chars_map_format _ new

/-- The format at byte `n` of a text that follows a character in the format
`last`. -/
def formatFrom (last : TextFormat) : Nat → Styled → TextFormat
  | _, [] => last
  | n, (c, f) :: t => if n < c.utf8Size then f else formatFrom f (n - c.utf8Size) t

/-- The format of the character that holds byte `n`, or else of the last
character, or else the default. -/
def formatAt (t : Styled) (n : Nat) : TextFormat := formatFrom {} n t

theorem formatFrom_append (last : TextFormat) (a v : Styled) :
    formatFrom last (size (chars a)) (a ++ v) =
      ((v.head?.or a.getLast?).map Prod.snd).getD last := by
  induction a generalizing last with
  | nil =>
    cases v with
    | nil => rfl
    | cons first v => exact if_pos first.1.utf8Size_pos
  | cons first a ih =>
    have hsize : size (chars (first :: a)) = first.1.utf8Size + size (chars a) := rfl
    rw [List.cons_append, formatFrom, hsize, if_neg (by omega), Nat.add_sub_cancel_left, ih,
      List.getLast?_cons]
    cases v.head? with
    | some next => rfl
    | none =>
      cases a.getLast? with
      | some next => rfl
      | none => rfl

/-- Where a part of a text ends, the format is that of the character behind it,
if there is one. -/
theorem formatAt_append (a v : Styled) :
    (a ++ v : Styled).formatAt (size a.chars) =
      ((v.head?.or a.getLast?).map Prod.snd).getD {} := formatFrom_append {} a v

/-- Of two ways to part a text, the one that parts it later takes a stretch
more into the first part. -/
theorem exists_of_append_eq {t u t' u' : Styled} (h : t ++ u = t' ++ u')
    (hle : size t.chars ≤ size t'.chars) : ∃ m, t' = t ++ m ∧ u = m ++ u' := by
  rcases List.append_eq_append_iff.mp h with ⟨m, rfl, rfl⟩ | ⟨m, rfl, rfl⟩
  · exact ⟨m, rfl, rfl⟩
  · rw [chars_append, size_append] at hle
    have hm : Styled.chars m = [] := size_eq_zero_iff.mp (by omega)
    have hnil : m = [] := List.map_eq_nil_iff.mp hm
    subst hnil
    exact ⟨[], by simp, by simp⟩

end Styled

namespace Run

theorem styled_kept (r : Run) : r.kept.flatMap styled = r.styled := by
  unfold kept
  split
  · rename_i h
    have hr : r.text = "" := by simpa [isEmpty] using h
    rw [styled, chars, hr]
    rfl
  · rw [List.flatMap_cons, List.flatMap_nil, List.append_nil]

/-- A stretch of a run is in the format of the run. -/
theorem eq_map_of_styled_eq {r : Run} {a m : Styled} (h : r.styled = a ++ m) :
    a = a.chars.map (fun c => (c, r.format)) ∧ m = m.chars.map fun c => (c, r.format) := by
  rw [styled] at h
  obtain ⟨u, v, -, rfl, rfl⟩ := List.map_eq_append_iff.mp h
  rw [Styled.chars_map_format, Styled.chars_map_format]
  exact ⟨rfl, rfl⟩

theorem styled_dropBytes {x v : Styled} {runs : List Run} (h : runs.flatMap styled = x ++ v) :
    (dropBytes (size x.chars) runs).flatMap styled = v := by
  induction runs generalizing x v with
  | nil => exact (List.append_eq_nil_iff.mp h.symm).2.symm
  | cons r rs ih =>
    rw [List.flatMap_cons] at h
    rw [dropBytes, List.flatMap_append, styled_kept, styled_withChars]
    have hr : r.styled.chars = r.chars := chars_styled r
    by_cases hle : size r.chars ≤ size x.chars
    · obtain ⟨m, rfl, hrest⟩ := Styled.exists_of_append_eq h (by rwa [hr])
      rw [Styled.chars_append, hr] at hle ⊢
      rw [cut_of_size_le hle, size_append, Nat.add_sub_cancel_left]
      exact ih hrest
    · obtain ⟨m, hm, rfl⟩ := Styled.exists_of_append_eq h.symm (by rw [hr]; omega)
      have hchars : r.chars = x.chars ++ m.chars := by
        rw [← hr, hm, Styled.chars_append]
      have hzero : size x.chars - size r.chars = size (Styled.chars []) :=
        Nat.sub_eq_zero_of_le (by omega)
      rw [hzero, ih (List.nil_append _).symm, hchars, cut_size_append]
      exact congrArg (· ++ rs.flatMap styled) (eq_map_of_styled_eq hm).2.symm

theorem inFormatOf_eq {r : Run} {m : Styled} (hm : m ≠ [])
    (hformat : m = m.chars.map fun c => (c, r.format)) (rest : Styled) (new : List Char) :
    (m ++ rest : Styled).inFormatOf new = new.map fun c => (c, r.format) := by
  obtain ⟨first, m, rfl⟩ := List.exists_cons_of_ne_nil hm
  have hfirst : first = (first.1, r.format) := (List.cons.inj hformat).1
  rw [List.cons_append, Styled.inFormatOf, hfirst]
  rfl

/-- A slice replaced that starts in the first run: this run takes the new text,
and the runs behind it lose what the slice has of them. -/
theorem styled_replaceHead {r : Run} {rs : List Run} {a x b : Styled}
    (h : r.styled ++ rs.flatMap styled = a ++ (x ++ b)) (hlt : size a.chars < size r.chars)
    (new : List Char) :
    ((substitute r.chars (size a.chars) (size (a.chars ++ x.chars)) new).map (·, r.format)) ++
        (dropBytes (size (a.chars ++ x.chars) - size r.chars) rs).flatMap styled =
      a ++ (x ++ b : Styled).inFormatOf new ++ b := by
  have hrchars : r.styled.chars = r.chars := chars_styled r
  obtain ⟨m, hm, hrest⟩ := Styled.exists_of_append_eq h.symm (by rw [hrchars]; omega)
  obtain ⟨ha, hmformat⟩ := eq_map_of_styled_eq hm
  have hchars : r.chars = a.chars ++ m.chars := by rw [← hrchars, hm, Styled.chars_append]
  have hne : m ≠ [] := by
    rintro rfl
    rw [hchars, size_append] at hlt
    exact Nat.lt_irrefl _ hlt
  have hnew : (x ++ b : Styled).inFormatOf new = new.map fun c => (c, r.format) := by
    rw [hrest]
    exact inFormatOf_eq hne hmformat _ new
  by_cases hle : size x.chars ≤ size (Styled.chars m)
  · -- it ends there, too
    obtain ⟨w, rfl, rfl⟩ := Styled.exists_of_append_eq hrest hle
    rw [← List.append_assoc] at hm
    have hw := (eq_map_of_styled_eq hm).2
    rw [Styled.chars_append, ← List.append_assoc] at hchars
    have hzero : size (a.chars ++ x.chars) - size r.chars = size (Styled.chars []) := by
      rw [hchars, size_append (a.chars ++ x.chars)]
      exact Nat.sub_eq_zero_of_le (Nat.le_add_right _ _)
    rw [hzero, styled_dropBytes (List.nil_append _).symm, hchars, substitute_append, hnew,
      List.map_append, List.map_append, ← ha, ← hw, List.append_assoc]
  · -- it goes on behind it
    obtain ⟨w, rfl, hw⟩ := Styled.exists_of_append_eq hrest.symm (by omega)
    have hstop : size (a.chars ++ Styled.chars (m ++ w)) - size r.chars = size w.chars := by
      rw [Styled.chars_append, hchars, ← List.append_assoc, size_append (a.chars ++ _),
        Nat.add_sub_cancel_left]
    have hend : cut r.chars (size (a.chars ++ Styled.chars (m ++ w))) = (r.chars, []) := by
      refine cut_of_size_le ?_
      rw [Styled.chars_append, hchars, ← List.append_assoc, size_append (a.chars ++ _)]
      exact Nat.le_add_right _ _
    have hfront : cut r.chars (size a.chars) = (a.chars, Styled.chars m) := by
      rw [hchars, cut_size_append]
    rw [hstop, styled_dropBytes hw, substitute, hend, hfront, List.append_nil, hnew,
      List.map_append, ← ha]

theorem styled_replaceInside {a x b : Styled} {new : List Char} {runs replaced : List Run}
    (h : runs.flatMap styled = a ++ x ++ b)
    (hr : replaceInside new (size a.chars) (size (a.chars ++ x.chars)) runs = some replaced) :
    replaced.flatMap styled = a ++ (x ++ b : Styled).inFormatOf new ++ b := by
  induction runs generalizing a replaced with
  | nil => cases hr
  | cons r rs ih =>
    rw [List.flatMap_cons, List.append_assoc] at h
    rw [replaceInside] at hr
    split at hr
    · rename_i hlt
      obtain rfl := Option.some.inj hr
      rw [List.flatMap_append, styled_kept, styled_withChars]
      exact styled_replaceHead h hlt new
    · rename_i hlt
      obtain ⟨rest, hrest, rfl⟩ := Option.map_eq_some_iff.mp hr
      have hrchars : r.styled.chars = r.chars := chars_styled r
      obtain ⟨m, rfl, hm⟩ := Styled.exists_of_append_eq h (by rw [hrchars]; omega)
      rw [Styled.chars_append, hrchars] at hrest
      have hstart : size (r.chars ++ m.chars) - size r.chars = size m.chars := by
        rw [size_append, Nat.add_sub_cancel_left]
      have hstop : size (r.chars ++ m.chars ++ x.chars) - size r.chars =
          size (m.chars ++ x.chars) := by
        rw [List.append_assoc, size_append r.chars, Nat.add_sub_cancel_left]
      rw [hstart, hstop] at hrest
      rw [List.flatMap_append, styled_kept, ih (by rw [hm, List.append_assoc]) hrest]
      simp only [List.append_assoc]

/-- No run holds a position from the end of the text on, and some run holds
any position before. -/
theorem replaceInside_eq_none_iff {new : List Char} {start stop : Nat} {runs : List Run} :
    replaceInside new start stop runs = none ↔ size (allChars runs) ≤ start := by
  induction runs generalizing start stop with
  | nil => exact ⟨fun _ => Nat.zero_le _, fun _ => rfl⟩
  | cons r rs ih =>
    rw [replaceInside, allChars_cons, size_append]
    split
    · refine ⟨nofun, fun hle => ?_⟩
      omega
    · rw [Option.map_eq_none_iff, ih]
      omega

/-- A run holds the position where a part of the text ends just when something
is behind it. -/
theorem replaceInside_eq_none_iff_nil {a v : Styled} {new : List Char} {stop : Nat}
    {runs : List Run} (h : runs.flatMap styled = a ++ v) :
    replaceInside new (size a.chars) stop runs = none ↔ v = [] := by
  rw [replaceInside_eq_none_iff, ← chars_flatMap_styled, h, Styled.chars_append, size_append]
  constructor
  · intro hle
    have hnil : v.chars = [] := size_eq_zero_iff.mp (by omega)
    exact List.map_eq_nil_iff.mp hnil
  · rintro rfl
    exact Nat.le_refl _

theorem styled_flatMap_kept (runs : List Run) :
    (runs.flatMap kept).flatMap styled = runs.flatMap styled := by
  induction runs with
  | nil => rfl
  | cons r rs ih => rw [List.flatMap_cons, List.flatMap_append, styled_kept, ih, List.flatMap_cons]

theorem isEmpty_of_mem_kept {r q : Run} (h : q ∈ r.kept) : q.isEmpty = false := by
  unfold kept at h
  split at h
  · cases h
  · rename_i hr
    rw [List.mem_singleton.mp h]
    exact Bool.eq_false_iff.mpr hr

theorem isEmpty_of_mem_flatMap_kept {runs : List Run} {q : Run} (h : q ∈ runs.flatMap kept) :
    q.isEmpty = false := by
  obtain ⟨r, -, hq⟩ := List.mem_flatMap.mp h
  exact isEmpty_of_mem_kept hq

theorem styled_ne_nil {r : Run} (h : r.isEmpty = false) : r.styled ≠ [] := by
  intro hr
  have hchars : r.text.toList = [] := List.map_eq_nil_iff.mp hr
  have htext : r.text = "" := String.toList_inj.mp hchars
  rw [isEmpty, htext] at h
  cases h

/-- Text put at the end is in the format of the last character. -/
theorem styled_appendText (new : List Char) {runs : List Run}
    (h : ∀ r ∈ runs, r.isEmpty = false) :
    (appendText new runs).flatMap styled = runs.flatMap styled ++
      new.map fun c => (c, (((runs.flatMap styled).getLast?).map Prod.snd).getD {}) := by
  fun_induction appendText new runs with
  | case1 =>
    show (Run.plain (String.ofList new)).styled ++ [] = _
    rw [styled, chars, plain, String.toList_ofList, List.append_nil]
    rfl
  | case2 r =>
    obtain ⟨c, hc⟩ : ∃ c, r.chars.getLast? = some c := by
      cases hlast : r.chars.getLast? with
      | some c => exact ⟨c, rfl⟩
      | none =>
        have hnil : r.chars = [] := List.getLast?_eq_none_iff.mp hlast
        refine absurd ?_ (styled_ne_nil (h r List.mem_cons_self))
        rw [styled, hnil, List.map_nil]
    rw [List.flatMap_singleton, List.flatMap_singleton, styled_withChars, List.map_append, styled,
      List.getLast?_map, hc]
    rfl
  | case3 r rs hrs ih =>
    have hrest : rs.flatMap styled ≠ [] := by
      intro hnil
      obtain ⟨q, qs, rfl⟩ := List.exists_cons_of_ne_nil hrs
      have hq := List.flatMap_eq_nil_iff.mp hnil q List.mem_cons_self
      exact styled_ne_nil (h q (List.mem_cons_of_mem r List.mem_cons_self)) hq
    have hlast : (r.styled ++ rs.flatMap styled).getLast? = (rs.flatMap styled).getLast? := by
      rw [List.getLast?_append, List.getLast?_eq_some_getLast hrest]
      rfl
    rw [List.flatMap_cons, ih fun q hq => h q (List.mem_cons_of_mem r hq), List.flatMap_cons, hlast,
      List.append_assoc]

/-- A range of the text replaced: the new text is in the format at the start
of the range, and the characters around it keep theirs. -/
theorem styled_replaceAt {a x b : Styled} {runs : List Run} (new : List Char)
    (h : runs.flatMap styled = a ++ x ++ b) :
    (replace new (size a.chars) (size (a.chars ++ x.chars)) runs).flatMap styled =
      a ++ (new.map fun c => (c, (a ++ x ++ b : Styled).formatAt (size a.chars))) ++ b := by
  have hparts : runs.flatMap styled = a ++ (x ++ b) := by rw [h, List.append_assoc]
  rw [List.append_assoc a x b, Styled.formatAt_append]
  unfold replace
  split
  · rename_i hr
    have hne : x ++ b ≠ [] := fun hnil =>
      nomatch ((replaceInside_eq_none_iff_nil hparts).mpr hnil).symm.trans hr
    obtain ⟨next, v, hv⟩ := List.exists_cons_of_ne_nil hne
    rw [styled_replaceInside h hr, Styled.inFormatOf, hv]
    rfl
  · rename_i hr
    -- the range is empty and at the end
    have hnil := (replaceInside_eq_none_iff_nil hparts).mp hr
    obtain ⟨rfl, rfl⟩ := List.append_eq_nil_iff.mp hnil
    simp only [List.append_nil] at hparts ⊢
    split
    · rename_i hnew
      rw [List.isEmpty_iff.mp hnew, styled_flatMap_kept, hparts, List.map_nil, List.append_nil]
    · rw [styled_appendText new fun _ => isEmpty_of_mem_flatMap_kept, styled_flatMap_kept, hparts]
      rfl

/-- A slice of the text replaced: the new text is in the format in which the
slice began, and the characters around it keep theirs. -/
theorem styled_replace {a x b : Styled} {runs : List Run} (hx : x ≠ []) (new : List Char)
    (h : runs.flatMap styled = a ++ x ++ b) :
    (replace new (size a.chars) (size (a.chars ++ x.chars)) runs).flatMap styled =
      a ++ x.inFormatOf new ++ b := by
  rw [styled_replaceAt new h, List.append_assoc a x b, Styled.formatAt_append]
  obtain ⟨first, x, rfl⟩ := List.exists_cons_of_ne_nil hx
  rfl

/-- A range of the text replaced: the characters around it stay. -/
theorem allChars_replace {u x v : List Char} {runs : List Run} (new : List Char)
    (h : allChars runs = u ++ x ++ v) :
    allChars (replace new (size u) (size (u ++ x)) runs) = u ++ new ++ v := by
  rw [← chars_flatMap_styled] at h
  obtain ⟨a, y, b, hparts, rfl, rfl, rfl⟩ := Styled.exists_parts h
  rw [← chars_flatMap_styled, styled_replaceAt new hparts, Styled.chars_append, Styled.chars_append,
    Styled.chars_map_format]

end Run
end Compositor
