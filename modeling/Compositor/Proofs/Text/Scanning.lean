/-
# What a scan finds and what it passes over

A scan takes what its recogniser finds at the leftmost place and goes on behind
it. So whatever the recogniser finds at a place is in the scan, unless an
occurrence that starts before the place reaches beyond it.

A recogniser is narrower than another one if it finds those of the other's
occurrences that are of some kind. A scan with it need not give the other
scan's occurrences of that kind: the other one may have passed a place, with an
occurrence of another kind, at which the narrower one starts. It gives just
those if and only if that happens nowhere in the text.

Key definitions: `StartsInside`, `Recogniser.Narrows`, `Pattern.PicksFrom`,
`Pattern.NeverInside`.
Key theorems: `exists_of_mem_placed`, `mem_placed_or_startsInside`,
`Narrows.mem_wider_iff`, `Narrows.picksFrom_iff`.
-/
import Compositor.Proofs.Text.Pieces

namespace Compositor.Text

/-- Is the position within the span, and not at its start? -/
def StartsInside (n : Nat) (wider : Nat × Nat) : Prop := wider.1 < n ∧ n < wider.2

/-- An occurrence in a text, where `n` more bytes stand before the text. -/
def behind (n : Nat) (o : (Nat × Nat) × List Char) : (Nat × Nat) × List Char :=
  ((n + o.1.1, n + o.1.2), o.2)

theorem mem_map_behind {n : Nat} {span : Nat × Nat} {found : List Char}
    {os : List ((Nat × Nat) × List Char)} :
    (span, found) ∈ os.map (behind n) ↔
      ∃ start stop, ((start, stop), found) ∈ os ∧ span = (n + start, n + stop) := by
  rw [List.mem_map]
  constructor
  · rintro ⟨⟨⟨start, stop⟩, _⟩, ho, heq⟩
    obtain ⟨hspan, rfl⟩ := Prod.mk.inj heq
    exact ⟨start, stop, ho, hspan.symm⟩
  · rintro ⟨start, stop, ho, rfl⟩
    exact ⟨_, ho, rfl⟩

theorem StartsInside.behind {n k : Nat} {wider : Nat × Nat} (h : StartsInside k wider) :
    StartsInside (n + k) (n + wider.1, n + wider.2) :=
  ⟨Nat.add_lt_add_left h.1 n, Nat.add_lt_add_left h.2 n⟩

theorem mem_spans_iff {p : Pattern} {s : List Char} {span : Nat × Nat} :
    span ∈ p.spans s ↔ ∃ found, (span, found) ∈ p.placed s := by
  rw [← map_fst_placed, List.mem_map]
  constructor
  · rintro ⟨⟨span, found⟩, h, rfl⟩
    exact ⟨found, h⟩
  · rintro ⟨found, h⟩
    exact ⟨(span, found), h, rfl⟩

theorem mem_spans_of_mem_placed {p : Pattern} {s found : List Char} {span : Nat × Nat}
    (h : (span, found) ∈ p.placed s) : span ∈ p.spans s := mem_spans_iff.mpr ⟨found, h⟩

/-- No span of a pattern starts inside another one. -/
theorem not_startsInside_of_mem_spans {p : Pattern} {s : List Char} {span wider : Nat × Nat}
    (h : span ∈ p.spans s) (hwider : wider ∈ p.spans s) : ¬ StartsInside span.1 wider := by
  rintro ⟨hstart, hstop⟩
  have hle := start_le_stop h
  obtain ⟨front, back, hspans⟩ := List.append_of_mem h
  have hpairs := pairwise_spans p s
  rw [hspans] at hpairs hwider
  obtain ⟨-, hback, hfront⟩ := List.pairwise_append.mp hpairs
  rcases List.mem_append.mp hwider with hbefore | hat
  · have := hfront wider hbefore span List.mem_cons_self
    omega
  · rcases List.mem_cons.mp hat with rfl | hbehind
    · exact Nat.lt_irrefl _ hstart
    · have := (List.pairwise_cons.mp hback).1 wider hbehind
      omega

/-! ### A scan step by step -/

namespace Recogniser

variable {r : Recogniser}

theorem placed_of_find_some {s found rest : List Char} (h : r.find s = some (found, rest)) :
    r.pattern.placed s =
      ((0, size found), found) :: (r.pattern.placed rest).map (behind (size found)) := by
  have hcut : r.pattern.cut s = (r.pattern.cut rest).cons [] found := cutBy_of_find_some h
  have hsize : 0 + size ([] : List Char) = 0 := rfl
  unfold Pattern.placed Pattern.spans
  rw [hcut, Cut.cons, spansFrom, hsize, Nat.zero_add]
  have hspans := spansFrom_add (size found) 0 (r.pattern.cut rest).occurrences
  rw [Nat.add_zero] at hspans
  rw [hspans, List.map_cons, List.zip_cons_cons, List.zip_map_left]
  rfl

theorem placed_of_find_none {c : Char} {s : List Char} (h : r.find (c :: s) = none) :
    r.pattern.placed (c :: s) = (r.pattern.placed s).map (behind c.utf8Size) := by
  have hcut : r.pattern.cut (c :: s) = (r.pattern.cut s).skip c := cutBy_of_find_none h
  have hspans : r.pattern.spans (c :: s) =
      (r.pattern.spans s).map fun span => (c.utf8Size + span.1, c.utf8Size + span.2) := by
    unfold Pattern.spans
    rw [hcut, ← spansFrom_add]
    obtain ⟨os, rest⟩ := r.pattern.cut s
    cases os with
    | nil => rfl
    | cons o os => simp only [Cut.skip, spansFrom, size, Nat.add_zero, Nat.zero_add]
  unfold Pattern.placed
  rw [hspans, hcut, found_skip, List.zip_map_left]
  rfl

theorem placed_nil : r.pattern.placed [] = [] := by
  have hcut : r.pattern.cut [] = ⟨[], []⟩ := by
    show r.cutBy [] = _
    rw [cutBy]
  rw [Pattern.placed, hcut]
  exact List.zip_nil_right

/-- What is in the scan is found at its place. -/
theorem exists_of_mem_placed {s found : List Char} {span : Nat × Nat}
    (h : (span, found) ∈ r.pattern.placed s) :
    ∃ u rest, s = u ++ (found ++ rest) ∧ span = (size u, size u + size found) ∧
      r.find (found ++ rest) = some (found, rest) := by
  fun_induction r.cutBy s generalizing span with
  | case1 =>
    rw [placed_nil] at h
    cases h
  | case2 c s first rest hfind ih =>
    have happ := r.append_of_find hfind
    rw [placed_of_find_some hfind] at h
    rcases List.mem_cons.mp h with h | h
    · obtain ⟨rfl, rfl⟩ := Prod.mk.inj h
      refine ⟨[], rest, happ.symm, ?_, ?_⟩
      · rw [size, Nat.zero_add]
      · rwa [happ]
    · obtain ⟨start, stop, ho, rfl⟩ := mem_map_behind.mp h
      obtain ⟨u, rest', hrest, hspan, hfind'⟩ := ih ho
      obtain ⟨rfl, rfl⟩ := Prod.mk.inj hspan
      refine ⟨first ++ u, rest', ?_, ?_, hfind'⟩
      · rw [List.append_assoc, ← hrest, happ]
      · rw [size_append, Nat.add_assoc]
  | case3 c s hfind ih =>
    rw [placed_of_find_none hfind] at h
    obtain ⟨start, stop, ho, rfl⟩ := mem_map_behind.mp h
    obtain ⟨u, rest, rfl, hspan, hfind'⟩ := ih ho
    obtain ⟨rfl, rfl⟩ := Prod.mk.inj hspan
    exact ⟨c :: u, rest, rfl, by rw [size, Nat.add_assoc], hfind'⟩

/-- What holds of a place in a text holds of it in a longer text whose scan has
the occurrences of the text, `n` bytes further on. -/
theorem taken_or_passed_behind {p : Pattern} {s t found : List Char} {n k : Nat}
    (hscan : ∀ o ∈ (p.placed t).map (behind n), o ∈ p.placed s)
    (h : ((k, k + size found), found) ∈ p.placed t ∨ ∃ wider ∈ p.spans t, StartsInside k wider) :
    ((n + k, n + k + size found), found) ∈ p.placed s ∨
      ∃ wider ∈ p.spans s, StartsInside (n + k) wider := by
  rcases h with h | ⟨wider, hwider, hinside⟩
  · exact .inl (hscan _ (mem_map_behind.mpr ⟨_, _, h, by rw [Nat.add_assoc]⟩))
  · obtain ⟨found', hfound'⟩ := mem_spans_iff.mp hwider
    have hin := hscan _ (mem_map_behind.mpr ⟨_, _, hfound', rfl⟩)
    exact .inr ⟨_, mem_spans_of_mem_placed hin, hinside.behind⟩

/-- **What a scan passes over.** What is found at a place is in the scan, unless
the place is inside an occurrence that starts before it. -/
theorem mem_placed_or_startsInside {v found rest : List Char} (h : r.find v = some (found, rest))
    (u : List Char) :
    ((size u, size u + size found), found) ∈ r.pattern.placed (u ++ v) ∨
      ∃ wider ∈ r.pattern.spans (u ++ v), StartsInside (size u) wider := by
  generalize hs : u ++ v = s
  fun_induction r.cutBy s generalizing u with
  | case1 =>
    obtain ⟨rfl, rfl⟩ := List.append_eq_nil_iff.mp hs
    rw [find_nil] at h
    cases h
  | case2 c s first rest' hfind ih =>
    have hplaced := placed_of_find_some hfind
    have happ := r.append_of_find hfind
    rcases Nat.lt_or_ge (size u) (size first) with hlt | hge
    · cases u with
      | nil =>
        rw [← hs, List.nil_append, h] at hfind
        obtain ⟨rfl, rfl⟩ := Prod.mk.inj (Option.some.inj hfind)
        rw [hplaced, size, Nat.zero_add]
        exact .inl List.mem_cons_self
      | cons a u =>
        -- the place is inside the first occurrence
        have hin : ((0, size first), first) ∈ r.pattern.placed (c :: s) := by
          rw [hplaced]
          exact List.mem_cons_self
        exact .inr ⟨_, mem_spans_of_mem_placed hin, size_pos a u, hlt⟩
    · obtain ⟨w, rfl, hrest⟩ := exists_of_append_eq (happ.trans hs.symm) hge
      rw [size_append]
      refine taken_or_passed_behind (fun o ho => ?_) (ih w hrest.symm)
      rw [hplaced]
      exact List.mem_cons_of_mem _ ho
  | case3 c s hfind ih =>
    cases u with
    | nil =>
      rw [← hs, List.nil_append, h] at hfind
      cases hfind
    | cons a u =>
      obtain ⟨rfl, hrest⟩ := List.cons.inj hs
      refine taken_or_passed_behind (fun o ho => ?_) (ih u hrest)
      rw [placed_of_find_none hfind]
      exact ho

end Recogniser

/-! ### Narrower scans -/

/-- The pattern's occurrences are those of another pattern that are of a kind. -/
def Pattern.PicksFrom (p q : Pattern) (kind : List Char → Prop) (s : List Char) : Prop :=
  ∀ span, span ∈ p.spans s ↔ ∃ found, (span, found) ∈ q.placed s ∧ kind found

/-- No occurrence of the pattern starts inside one of another pattern. -/
def Pattern.NeverInside (p q : Pattern) (s : List Char) : Prop :=
  ∀ span ∈ p.spans s, ∀ wider ∈ q.spans s, ¬ StartsInside span.1 wider

namespace Recogniser

/-- The recogniser finds what another one finds, if it is of a kind. -/
def Narrows (r' r : Recogniser) (kind : List Char → Prop) : Prop :=
  ∀ {s found rest}, r'.find s = some (found, rest) ↔ r.find s = some (found, rest) ∧ kind found

variable {r' r : Recogniser} {kind : List Char → Prop}

/-- An occurrence of the narrower scan is of the kind. It is one of the wider scan
if and only if it starts inside none of those. -/
theorem Narrows.mem_wider_iff (h : r'.Narrows r kind) {s found : List Char} {span : Nat × Nat}
    (hin : (span, found) ∈ r'.pattern.placed s) :
    kind found ∧ ((span, found) ∈ r.pattern.placed s ↔
      ∀ wider ∈ r.pattern.spans s, ¬ StartsInside span.1 wider) := by
  obtain ⟨u, rest, rfl, rfl, hfind⟩ := exists_of_mem_placed hin
  obtain ⟨hfind, hkind⟩ := h.mp hfind
  refine ⟨hkind, fun hin wider hwider => ?_, fun hnever => ?_⟩
  · exact not_startsInside_of_mem_spans (mem_spans_of_mem_placed hin) hwider
  · refine (mem_placed_or_startsInside hfind u).resolve_right ?_
    rintro ⟨wider, hwider, hinside⟩
    exact hnever wider hwider hinside

/-- An occurrence of the wider scan that is of the kind is one of the narrower
scan, or it starts inside one. -/
theorem Narrows.mem_narrower (h : r'.Narrows r kind) {s found : List Char} {span : Nat × Nat}
    (hin : (span, found) ∈ r.pattern.placed s) (hkind : kind found) :
    (span, found) ∈ r'.pattern.placed s ∨
      ∃ wider ∈ r'.pattern.spans s, StartsInside span.1 wider := by
  obtain ⟨u, rest, rfl, rfl, hfind⟩ := exists_of_mem_placed hin
  exact mem_placed_or_startsInside (h.mpr ⟨hfind, hkind⟩) u

/-- **When the scans agree.** A narrower scan picks the occurrences of its kind
from the wider scan if and only if none of its own starts inside one of those. -/
theorem Narrows.picksFrom_iff (h : r'.Narrows r kind) (s : List Char) :
    r'.pattern.PicksFrom r.pattern kind s ↔ r'.pattern.NeverInside r.pattern s := by
  constructor
  · intro hpick span hspan wider hwider
    obtain ⟨found, hin, -⟩ := (hpick span).mp hspan
    exact not_startsInside_of_mem_spans (mem_spans_of_mem_placed hin) hwider
  · intro hnever
    have hinto : ∀ span found, (span, found) ∈ r'.pattern.placed s →
        (span, found) ∈ r.pattern.placed s ∧ kind found := by
      intro span found hin
      obtain ⟨hkind, hwide⟩ := h.mem_wider_iff hin
      exact ⟨hwide.mpr (hnever span (mem_spans_of_mem_placed hin)), hkind⟩
    intro span
    constructor
    · intro hspan
      obtain ⟨found, hin⟩ := mem_spans_iff.mp hspan
      exact ⟨found, hinto span found hin⟩
    · rintro ⟨found, hin, hkind⟩
      refine mem_spans_of_mem_placed ((h.mem_narrower hin hkind).resolve_right ?_)
      -- what it would start inside is in the wider scan too
      rintro ⟨wider, hwider, hinside⟩
      obtain ⟨found', hin'⟩ := mem_spans_iff.mp hwider
      exact not_startsInside_of_mem_spans (mem_spans_of_mem_placed hin)
        (mem_spans_of_mem_placed (hinto wider found' hin').1) hinside

end Recogniser
end Compositor.Text
